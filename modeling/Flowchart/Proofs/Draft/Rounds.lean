import Flowchart.Proofs.Draft.Recursion

/-!
# `Flowchart.Proofs.Draft.Rounds`: a stack with one result between rounds

A run can be taken apart into rounds. On the stack there are constructs that
asked for a part, and on top of them there may be a request that was not
started. In a round the top of the stack is handed what was given last. It
goes on until it asks for a part, and that is put on top of it, or until it is
done, and then it is taken off.

What was given last is kept in one place for all. A construct has to find the
fragment of its own part there, and a request that is started has to find
nothing. So the rounds for a part have to leave the stack below it as it was,
and its fragment in that place. That is what is proved of every request, by
induction on its tree; the rounds for the parts of a construct are put
together from it.

* `Waiting`, `Turn`, `round`: what is on the stack, and one round;
* `Leaves`: the rounds for a request leave what serving it by recursion does;
* `rounds_runRequest`: a run, its rounds and the recursion draft the same.
-/

set_option autoImplicit false

namespace Flowchart.Draft

/-! ### Rounds -/

/-- What is on the stack. -/
inductive Waiting where
  /-- A request that was not started. -/
  | fresh (r : Request)
  /-- A construct that asked for a part. -/
  | asked (frame : Frame)

/-- The stack between two rounds, and what was given last. -/
structure Turn where
  stack : List Waiting
  given : Option Fragment

/-- What comes of a construct that goes on. -/
inductive Answer where
  /-- It asks for a part. -/
  | asks (frame : Frame) (q : Request)
  /-- It is done. -/
  | gives (result : Option Fragment)

/-- A construct asks for the first of its parts, or is closed if there is
none. -/
def proceed (construct : Construct) : List (Part × Request) → Drafting Answer
  | [] => do return .gives (← construct.finish)
  | (part, q) :: rest => return .asks ⟨construct, part, rest⟩ q

/-- Hands what was given last to what waits. A request is started with
nothing; it cannot take a fragment. -/
def Waiting.resume (table : KindTable) : Waiting → Option Fragment → Option (Drafting Answer)
  | .fresh r, none => some do
    let construct ← r.start table
    proceed construct (r.parts table)
  | .fresh _, some _ => none
  | .asked frame, given => some do
    let construct ← frame.construct.receive frame.part given
    proceed construct frame.rest

/-- What an answer makes of the stack below it. -/
def Answer.turn (stack : List Waiting) : Answer → Turn
  | .asks frame q => ⟨.fresh q :: .asked frame :: stack, none⟩
  | .gives result => ⟨stack, result⟩

/-- One round, if there is something on the stack that can go on. -/
def round (table : KindTable) : Turn → Option (Drafting Turn)
  | ⟨[], _⟩ => none
  | ⟨top :: stack, given⟩ => (top.resume table given).map fun answering => do
    return (← answering).turn stack

/-- Some rounds, one after the other, if there are so many. -/
def rounds (table : KindTable) : Nat → Turn × Draft → Option (Turn × Draft)
  | 0, state => some state
  | count + 1, (turn, draft) => do
    let drafting ← round table turn
    rounds table count (drafting draft)

section

variable {table : KindTable}

/-- Some rounds and then some more are both together. -/
theorem rounds_add (m n : Nat) (state : Turn × Draft) :
    rounds table (m + n) state = (rounds table m state).bind (rounds table n) := by
  induction m generalizing state with
  | zero => rw [Nat.zero_add, rounds, Option.bind_some]
  | succ m ih =>
    obtain ⟨turn, draft⟩ := state
    rw [Nat.succ_add, rounds, rounds]
    cases round table turn with
    | none => rfl
    | some drafting => exact ih (drafting draft)

/-! ### Rounds and recursion -/

/-- The rounds for a request on top of a stack leave the stack as it was, and
what serving the request by recursion gives and drafts. -/
def Leaves (table : KindTable) (r : Request) : Prop :=
  ∀ stack draft, rounds table (r.work table - 1) (⟨.fresh r :: stack, none⟩, draft) =
    some (⟨stack, (serve table r draft).1⟩, (serve table r draft).2)

/-- A part takes one round more than its own: the one in which its construct
receives it. -/
theorem work_cons (p : Part × Request) (parts : List (Part × Request)) :
    work table (p :: parts) = (p.2.work table - 1) + (work table parts + 1) := by
  have hpart := p.2.work_eq table
  rw [work]
  omega

/-- The rounds for the parts of a construct close it as the recursion does. -/
theorem rounds_parts {parts : List (Part × Request)} (h : ∀ p ∈ parts, Leaves table p.2)
    (construct : Construct) (stack : List Waiting) (draft : Draft) :
    rounds table (work table parts)
        ((proceed construct parts draft).1.turn stack, (proceed construct parts draft).2) =
      some (⟨stack, ((serveParts table parts construct >>= Construct.finish) draft).1⟩,
        ((serveParts table parts construct >>= Construct.finish) draft).2) := by
  induction parts generalizing construct draft with
  | nil => rfl
  | cons p parts ih =>
    obtain ⟨part, q⟩ := p
    -- The part is started on top of its construct, with nothing given.
    have hasks : rounds table (q.work table - 1)
          ((proceed construct ((part, q) :: parts) draft).1.turn stack,
            (proceed construct ((part, q) :: parts) draft).2) =
        some (⟨.asked ⟨construct, part, parts⟩ :: stack, (serve table q draft).1⟩,
          (serve table q draft).2) :=
      h (part, q) List.mem_cons_self _ draft
    rw [work_cons, rounds_add, hasks, Option.bind_some]
    -- One round later the construct has received it, and goes on with the rest.
    exact ih (fun p hp => h p (List.mem_cons_of_mem _ hp)) _ _

/-- The rounds for a request leave what the recursion does. -/
theorem leaves (table : KindTable) (r : Request) : Leaves table r := by
  -- The trees of the parts are smaller.
  have h : ∀ p ∈ r.parts table, Leaves table p.2 := fun p hp => leaves table p.2
  intro stack draft
  have hwork : r.work table - 1 = work table (r.parts table) + 1 := by
    have hr := r.work_eq table
    omega
  rw [hwork, serve_eq]
  exact rounds_parts h _ stack _
termination_by r.tree.size
decreasing_by exact Request.parts_size_lt hp

end

/-- A request that is alone on the stack is done after one round less than its
work, and nothing is left on the stack then. A run gives and drafts what these
rounds do, whatever was drafted before, and so does the recursion: it opens a
construct, serves its parts one after the other, hands each result over as it
comes, and closes the construct. -/
theorem rounds_runRequest (table : KindTable) (r : Request) (draft : Draft) :
    rounds table (r.work table - 1) (⟨[.fresh r], none⟩, draft) =
        some (⟨[], (runRequest table r draft).1⟩, (runRequest table r draft).2) ∧
      round table ⟨[], (runRequest table r draft).1⟩ = none ∧
      runRequest table r draft = serve table r draft ∧
      serve table r draft = (show Drafting (Option Fragment) from do
        let construct ← r.start table
        let construct ← (r.parts table).foldlM
          (fun construct p => do construct.receive p.1 (← serve table p.2)) construct
        construct.finish) draft := by
  have hrun : runRequest table r draft = serve table r draft := by rw [runRequest_eq_serve]
  refine ⟨?_, rfl, hrun, ?_⟩
  · rw [hrun]
    exact leaves table r [] draft
  · rw [serve_eq]
    rfl

end Flowchart.Draft

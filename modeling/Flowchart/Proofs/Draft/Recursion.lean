import Flowchart.Draft.Serve

/-!
# `Flowchart.Proofs.Draft.Recursion`: serving by recursion and on a stack

Drafts are made by a run that keeps the constructs that wait for a part on a
stack. It does what the plain recursion `serve` does, step by step.

* `serve_eq`: a construct is opened, its parts are served, and it is closed;
* `run_eq`: a run serves the parts of the open construct by recursion, and
  goes on with what waits on the stack;
* `runRequest_eq_serve`: a request is served on a stack as it is by
  recursion;
* `draft_draft`: the draft of a tree is what serving its root leaves.
-/

set_option autoImplicit false

namespace Flowchart.Draft

/-- Serves parts one after the other and hands their results to a construct. -/
def serveParts (table : KindTable) (parts : List (Part × Request)) (construct : Construct) :
    Drafting Construct :=
  parts.foldlM (fun construct p => do construct.receive p.1 (← serve table p.2)) construct

/-- Where no parts are left, the construct stays as it is. -/
theorem serveParts_nil (table : KindTable) (construct : Construct) :
    serveParts table [] construct = pure construct := rfl

/-- The first part is served and received before the others. -/
theorem serveParts_cons (table : KindTable) (p : Part × Request) (parts : List (Part × Request))
    (construct : Construct) :
    serveParts table (p :: parts) construct = (do
      let result ← serve table p.2
      let construct ← construct.receive p.1 result
      serveParts table parts construct) := by
  rw [serveParts, List.foldlM_cons, bind_assoc]
  rfl

/-- Parts in front are served before those behind. -/
theorem serveParts_append (table : KindTable) (parts parts' : List (Part × Request))
    (construct : Construct) :
    serveParts table (parts ++ parts') construct =
      serveParts table parts construct >>= serveParts table parts' :=
  List.foldlM_append ..

/-- A construct is opened, its parts are served and it is closed. -/
theorem serve_eq (table : KindTable) (r : Request) :
    serve table r = (do
      let construct ← r.start table
      let construct ← serveParts table (r.parts table) construct
      construct.finish) := by
  -- The recursion keeps with each part that it is one, only to be seen to end.
  have hparts : ∀ construct, serveParts table (r.parts table) construct =
      (r.parts table).attach.foldlM
        (fun construct p => do construct.receive p.1.1 (← serve table p.1.2)) construct := by
    intro construct
    have h := @List.foldlM_map Drafting _ _ _ _ Subtype.val
      (fun construct (p : Part × Request) => do construct.receive p.1 (← serve table p.2))
      (r.parts table).attach construct
    rwa [List.attach_map_subtype_val] at h
  rw [serve]
  simp only [hparts]

/-! ### The stack -/

/-- Hands the result of a part to the construct on top of a stack, and goes
on until the stack is empty. -/
def resume (table : KindTable) : List Frame → Option Fragment → Drafting (Option Fragment)
  | [], result => pure result
  | frame :: stack, result => do
    let construct ← frame.construct.receive frame.part result
    let construct ← serveParts table frame.rest construct
    let result ← construct.finish
    resume table stack result

/-- A run serves the parts of the open construct by recursion, and then what
waits on the stack. -/
theorem run_eq (table : KindTable) (construct : Construct) (parts : List (Part × Request))
    (stack : List Frame) :
    run table construct parts stack = (do
      let construct ← serveParts table parts construct
      let result ← construct.finish
      resume table stack result) := by
  fun_induction run table construct parts stack with
  -- A part is opened on top of the construct that waits for it.
  | case1 construct part q rest stack ih =>
    rw [serveParts_cons, serve_eq]
    simp only [ih, resume, bind_assoc]
  | case2 construct frame stack ih =>
    simp only [ih, serveParts_nil, pure_bind, resume]
  | case3 construct =>
    simp only [serveParts_nil, pure_bind, resume, bind_pure]

/-- A stack of constructs serves a request as recursion does. -/
theorem runRequest_eq_serve (table : KindTable) (r : Request) :
    runRequest table r = serve table r := by
  rw [runRequest, serve_eq]
  simp only [run_eq, resume, bind_pure]

/-! ### The root -/

/-- What the root of a tree is served on: a draft of nothing, in which it may
be noted that the kind of the root cannot be looked up. -/
def opening (tree : MarkedTree) : Draft :=
  (refuse (MarkedTree.firstRefused? [tree]) empty).2

/-- What the root of a tree gives and leaves. -/
def served (table : KindTable) (tree : MarkedTree) : Option Fragment × Draft :=
  serve table (rootRequest table tree) (opening tree)

/-- A tree whose root is visited gets no entry of its own. Any other one may get
one. -/
theorem draft_eq (table : KindTable) (tree : MarkedTree) :
    draft table tree = match (rootRequest table tree).mode with
      | .visit => ⟨(served table tree).2, none⟩
      | .chain => ⟨(served table tree).2,
          promotion tree.label.toNodeInfo (served table tree).1 (served table tree).2⟩ := by
  rw [draft, runRequest_eq_serve]
  rfl

/-- The draft of a tree is what serving its root leaves. -/
theorem draft_draft (table : KindTable) (tree : MarkedTree) :
    (draft table tree).draft = (served table tree).2 := by
  rw [draft_eq]
  cases (rootRequest table tree).mode <;> rfl

end Flowchart.Draft

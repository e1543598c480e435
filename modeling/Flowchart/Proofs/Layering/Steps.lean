import Flowchart.Proofs.Layering.Recursion

/-!
# `Flowchart.Proofs.Layering.Steps`: the layering step by step

The layering as a machine. With no frame on the stack it takes the next of
the nodes that it starts from, and with a frame on top it looks at the next
predecessor of its node, or takes the frame away. What it looks at is noted.

Whatever order the nodes are taken in, there is always the same left to look
at: of a node that was found nothing, of one on the stack the predecessors
that its frame still holds, and of any other all. Each step takes from that
what it looks at, so in the end every predecessor of every node was looked at
once.

* `step`, `Steps`: the machine and its runs;
* `steps_assign`: the layering is a run of the machine;
* `Sound.leaves_step`, `Sound.leaves_steps`: what a step and a run leave to look at;
* `assign_by_recursion`: the layering finds the layers of the recursion, and
  looks at each predecessor of each node once.
-/

set_option autoImplicit false

namespace Flowchart.Layout

variable {ι : Type} [DecidableEq ι]

/-- Where a layering stands. -/
structure State (nodes : List ι) where
  /-- The nodes that it still starts from. -/
  roots : List ι
  seen : List ι
  found : Layers ι
  stack : List (Frame nodes)

/-- A node, and a predecessor of it that is looked at. -/
abbrev Look (ι : Type) := ι × ι

/-- A look at a predecessor of the node on top of the stack. -/
def look (p : Predecessors ι) (s : State p.nodes) (node : ι) (n : { n : ι // n ∈ p.nodes })
    (rest : List { n : ι // n ∈ p.nodes }) (least : Nat) (stack : List (Frame p.nodes)) :
    State p.nodes :=
  match s.found.lookup n.1 with
  | some layer => { s with stack := ⟨node, rest, max least (layer + 1)⟩ :: stack }
  | none =>
    if n.1 ∈ s.seen then { s with stack := ⟨node, rest, max least 1⟩ :: stack }
    else
      { s with
        seen := n.1 :: s.seen
        stack := ⟨n.1, p.of n.1, 0⟩ :: ⟨node, rest, least⟩ :: stack }

/-- One step of a layering and what it looks at, unless it is over. -/
def step (p : Predecessors ι) (s : State p.nodes) : Option (List (Look ι) × State p.nodes) :=
  match s.stack with
  | [] =>
    match s.roots with
    | [] => none
    | root :: roots =>
      if (s.found.lookup root).isSome then some ([], { s with roots })
      else
        some ([], { s with roots, seen := root :: s.seen, stack := [⟨root, p.of root, 0⟩] })
  | ⟨node, [], least⟩ :: stack =>
    some ([], { s with found := (node, least) :: s.found, stack := handOver least stack })
  | ⟨node, n :: rest, least⟩ :: stack =>
    some ([(node, n.1)], look p s node n rest least stack)

/-- Several steps, and all that they look at. -/
inductive Steps (p : Predecessors ι) : State p.nodes → List (Look ι) → State p.nodes → Prop where
  | refl (s : State p.nodes) : Steps p s [] s
  | step {s s' s'' : State p.nodes} {looks looks' : List (Look ι)}
      (h : step p s = some (looks, s')) (hs : Steps p s' looks' s'') :
      Steps p s (looks ++ looks') s''

variable {p : Predecessors ι} {s s' s'' : State p.nodes} {looks looks' : List (Look ι)}

/-- Steps behind steps are steps. -/
theorem Steps.trans (h : Steps p s looks s') (h' : Steps p s' looks' s'') :
    Steps p s (looks ++ looks') s'' := by
  induction h with
  | refl _ => exact h'
  | step hstep _ ih =>
    rw [List.append_assoc]
    exact .step hstep (ih h')

/-! ### The layering is a run -/

/-- The search takes steps until its stack is empty. -/
theorem steps_search (p : Predecessors ι) (roots seen : List ι) (found : Layers ι)
    (stack : List (Frame p.nodes)) :
    ∃ looks, Steps p ⟨roots, seen, found, stack⟩ looks
      ⟨roots, (search p seen found stack).1, (search p seen found stack).2, []⟩ := by
  -- Each case of the search is one step.
  fun_induction search p seen found stack with
  | case1 seen found => exact ⟨[], .refl _⟩
  | case2 seen found node least stack ih =>
    obtain ⟨looks, hsteps⟩ := ih
    exact ⟨_, .step rfl hsteps⟩
  | case3 seen found node n hn rest least stack layer hlookup ih =>
    obtain ⟨looks, hsteps⟩ := ih
    have hlook : look p ⟨roots, seen, found, ⟨node, ⟨n, hn⟩ :: rest, least⟩ :: stack⟩ node ⟨n, hn⟩
        rest least stack = ⟨roots, seen, found, ⟨node, rest, max least (layer + 1)⟩ :: stack⟩ := by
      simp [look, hlookup]
    exact ⟨_, .step rfl (hlook ▸ hsteps)⟩
  | case4 seen found node n hn rest least stack hlookup hseen ih =>
    obtain ⟨looks, hsteps⟩ := ih
    have hlook : look p ⟨roots, seen, found, ⟨node, ⟨n, hn⟩ :: rest, least⟩ :: stack⟩ node ⟨n, hn⟩
        rest least stack = ⟨roots, seen, found, ⟨node, rest, max least 1⟩ :: stack⟩ := by
      simp [look, hlookup, hseen]
    exact ⟨_, .step rfl (hlook ▸ hsteps)⟩
  | case5 seen found node n hn rest least stack hlookup hseen ih =>
    obtain ⟨looks, hsteps⟩ := ih
    have hlook : look p ⟨roots, seen, found, ⟨node, ⟨n, hn⟩ :: rest, least⟩ :: stack⟩ node ⟨n, hn⟩
        rest least stack =
        ⟨roots, n :: seen, found, ⟨n, p.of n, 0⟩ :: ⟨node, rest, least⟩ :: stack⟩ := by
      simp [look, hlookup, hseen]
    exact ⟨_, .step rfl (hlook ▸ hsteps)⟩

/-- The search takes steps until no root is left. -/
theorem steps_roots (p : Predecessors ι) (roots seen : List ι) (found : Layers ι) :
    ∃ looks, Steps p ⟨roots, seen, found, []⟩ looks
      ⟨[], (roots.foldl (assignFrom p) (seen, found)).1,
        (roots.foldl (assignFrom p) (seen, found)).2, []⟩ := by
  induction roots generalizing seen found with
  | nil => exact ⟨[], .refl _⟩
  | cons root roots ih =>
    rw [List.foldl_cons]
    cases hlookup : (found.lookup root).isSome with
    -- A root that was found on the way from an earlier one is passed over in one step.
    | true =>
      obtain ⟨looks, hsteps⟩ := ih seen found
      have hstep : step p ⟨root :: roots, seen, found, []⟩ =
          some ([], ⟨roots, seen, found, []⟩) := by
        simp [step, hlookup]
      have hassign : assignFrom p (seen, found) root = (seen, found) := by
        simp [assignFrom, hlookup]
      rw [hassign]
      exact ⟨_, .step hstep hsteps⟩
    | false =>
      obtain ⟨looks, hsearch⟩ := steps_search p roots (root :: seen) found [⟨root, p.of root, 0⟩]
      obtain ⟨looks', hsteps⟩ := ih (search p (root :: seen) found [⟨root, p.of root, 0⟩]).1
        (search p (root :: seen) found [⟨root, p.of root, 0⟩]).2
      have hstep : step p ⟨root :: roots, seen, found, []⟩ =
          some ([], ⟨roots, root :: seen, found, [⟨root, p.of root, 0⟩]⟩) := by
        simp [step, hlookup]
      have hassign : assignFrom p (seen, found) root =
          search p (root :: seen) found [⟨root, p.of root, 0⟩] := by
        simp [assignFrom, hlookup]
      rw [hassign]
      exact ⟨_, (Steps.step hstep hsearch).trans hsteps⟩

/-- The layering of all nodes, from its start to its end. -/
theorem steps_assign (p : Predecessors ι) :
    ∃ looks seen, Steps p ⟨p.nodes, [], [], []⟩ looks ⟨[], seen, assign p, []⟩ := by
  obtain ⟨looks, hsteps⟩ := steps_roots p p.nodes [] []
  exact ⟨looks, _, hsteps⟩

/-! ### What is left to look at -/

/-- The predecessors of a node that are still to be looked at while it is not
found: those that its frame holds, or all where it has no frame. -/
def waiting (p : Predecessors ι) : List (Frame p.nodes) → ι → List ι
  | [], n => (p.of n).map Subtype.val
  | frame :: stack, n =>
    if frame.node = n then frame.rest.map Subtype.val else waiting p stack n

/-- The predecessors of a node that are still to be looked at. -/
def todo (p : Predecessors ι) (s : State p.nodes) (n : ι) : List ι :=
  if (s.found.lookup n).isSome then [] else waiting p s.stack n

/-- The predecessors that were looked at for a node. -/
def looksOf (n : ι) (looks : List (Look ι)) : List ι :=
  (looks.filter fun look => look.1 = n).map Prod.snd

/-- What is looked at for a node in two rows of steps, one behind the other. -/
theorem looksOf_append (n : ι) (looks looks' : List (Look ι)) :
    looksOf n (looks ++ looks') = looksOf n looks ++ looksOf n looks' := by
  rw [looksOf, List.filter_append, List.map_append]
  rfl

/-- The nodes on the path. -/
def State.path (s : State p.nodes) : List ι :=
  s.stack.map Frame.node

/-- What holds of every state that a layering comes by. -/
structure Sound (s : State p.nodes) : Prop where
  tracks : Tracks s.seen s.path s.found
  nodup : s.path.Nodup
  fresh : ∀ n ∈ s.path, s.found.lookup n = none
  path_known : ∀ n ∈ s.path, n ∈ p.nodes
  roots_known : ∀ n ∈ s.roots, n ∈ p.nodes

/-- A layer that is handed over leaves the predecessors that wait. -/
theorem waiting_handOver (layer : Nat) (stack : List (Frame p.nodes)) (n : ι) :
    waiting p (handOver layer stack) n = waiting p stack n := by
  cases stack <;> rfl

omit [DecidableEq ι] in
/-- A layer that is handed over leaves the nodes on the stack. -/
theorem node_handOver (layer : Nat) (stack : List (Frame p.nodes)) :
    (handOver layer stack).map Frame.node = stack.map Frame.node := by
  cases stack <;> rfl

/-- A node without a frame waits with all of its predecessors. -/
theorem waiting_of_notMem {stack : List (Frame p.nodes)} {n : ι}
    (h : n ∉ stack.map Frame.node) : waiting p stack n = (p.of n).map Subtype.val := by
  induction stack with
  | nil => rfl
  | cons frame stack ih =>
    rw [List.map_cons, List.mem_cons, not_or] at h
    rw [waiting, if_neg (Ne.symm h.1), ih h.2]

/-- From a state, a step or a run comes to a sound state and takes what it
looks at from what there was to look at. -/
structure Leaves (s : State p.nodes) (looks : List (Look ι)) (s' : State p.nodes) : Prop where
  sound : Sound s'
  known : ∀ look ∈ looks, look.1 ∈ p.nodes
  todo : ∀ n, todo p s n = looksOf n looks ++ todo p s' n

/-- Two runs, one after the other, leave what one run leaves. -/
theorem Leaves.trans (h : Leaves s looks s') (h' : Leaves s' looks' s'') :
    Leaves s (looks ++ looks') s'' where
  sound := h'.sound
  known := fun look hlook => (List.mem_append.1 hlook).elim (h.known look) (h'.known look)
  todo n := by rw [h.todo, h'.todo, looksOf_append, List.append_assoc]

namespace Sound

variable {root node : ι} {roots : List ι} {n : { n : ι // n ∈ p.nodes }}
  {rest : List { n : ι // n ∈ p.nodes }} {least : Nat} {stack : List (Frame p.nodes)}

/-- A node that was found before is not started from. -/
theorem leaves_skip (hs : Sound s) (hroots : s.roots = root :: roots) :
    Leaves s [] { s with roots } where
  sound := { hs with
    roots_known := fun n hn => hs.roots_known n (hroots ▸ List.mem_cons_of_mem root hn) }
  known := nofun
  todo _ := rfl

/-- A new node comes onto the stack with all of its predecessors. -/
theorem leaves_push (hs : Sound s) (hnew : n.1 ∉ s.seen) (hroots : ∀ m ∈ roots, m ∈ s.roots) :
    Leaves s [] { s with
      roots, seen := n.1 :: s.seen, stack := ⟨n.1, p.of n.1, 0⟩ :: s.stack } := by
  have hpath : n.1 ∉ s.path := fun h => hnew ((hs.tracks n).2 (.inr h))
  have hfound : s.found.lookup n.1 = none := by
    rw [← Option.not_isSome_iff_eq_none]
    exact fun h => hnew ((hs.tracks n).2 (.inl h))
  refine ⟨⟨hs.tracks.see n.1, List.nodup_cons.2 ⟨hpath, hs.nodup⟩, ?_, ?_, ?_⟩, nofun, fun m => ?_⟩
  · exact List.forall_mem_cons.2 ⟨hfound, hs.fresh⟩
  · exact List.forall_mem_cons.2 ⟨n.2, hs.path_known⟩
  · exact fun m hm => hs.roots_known m (hroots m hm)
  -- The new frame looks at the predecessors of its node; the others look at what they did before.
  · by_cases hm : n.1 = m
    · subst hm
      simp [todo, hfound, waiting, waiting_of_notMem hpath, looksOf]
    · simp [todo, waiting, hm, looksOf]

/-- A node with nothing left to look at is found. -/
theorem leaves_close (hs : Sound s) (hstack : s.stack = ⟨node, [], least⟩ :: stack) :
    Leaves s [] { s with found := (node, least) :: s.found, stack := handOver least stack } := by
  obtain ⟨htracks, hnodup, hfresh, hpath, hroots⟩ := hs
  simp only [State.path, hstack, List.map_cons] at htracks hnodup hfresh hpath
  -- The node is on the path once, so taking its frame away takes it from the path.
  obtain ⟨hnode, hnodup⟩ := List.nodup_cons.1 hnodup
  obtain ⟨hfound, hfresh⟩ := List.forall_mem_cons.1 hfresh
  refine ⟨⟨?_, ?_, ?_, ?_, hroots⟩, by simp, fun m => ?_⟩
  · simpa only [State.path, node_handOver] using htracks.find least
  · simpa only [State.path, node_handOver] using hnodup
  · intro m hm
    rw [State.path, node_handOver] at hm
    have hne : m ≠ node := fun h => hnode (h ▸ hm)
    rw [lookup_cons_of_ne hne]
    exact hfresh m hm
  · intro m hm
    rw [State.path, node_handOver] at hm
    exact hpath m (List.mem_cons_of_mem _ hm)
  · by_cases hm : node = m
    · subst hm
      simp [todo, hfound, hstack, waiting, looksOf]
    · have hlookup := lookup_cons_of_ne (Ne.symm hm) least s.found
      rw [todo, todo, hlookup, hstack, waiting, if_neg hm, waiting_handOver]
      rfl

/-- The next predecessor of the node on top of the stack is taken away. -/
theorem leaves_advance (hs : Sound s) (least' : Nat)
    (hstack : s.stack = ⟨node, n :: rest, least⟩ :: stack) :
    Leaves s [(node, n.1)] { s with stack := ⟨node, rest, least'⟩ :: stack } := by
  obtain ⟨htracks, hnodup, hfresh, hpath, hroots⟩ := hs
  simp only [State.path, hstack, List.map_cons] at htracks hnodup hfresh hpath
  refine ⟨⟨htracks, hnodup, hfresh, hpath, hroots⟩, ?_, fun m => ?_⟩
  · simpa using hpath node List.mem_cons_self
  · by_cases hm : node = m
    · subst hm
      simp [todo, hfresh node List.mem_cons_self, hstack, waiting, looksOf]
    · simp [todo, hstack, waiting, hm, looksOf]

/-- One look at a predecessor leaves what it should. -/
theorem leaves_look (hs : Sound s) (hstack : s.stack = ⟨node, n :: rest, least⟩ :: stack) :
    Leaves s [(node, n.1)] (look p s node n rest least stack) := by
  unfold look
  split
  · exact hs.leaves_advance _ hstack
  · split
    · exact hs.leaves_advance _ hstack
    · rename_i hnew
      have hadvance := hs.leaves_advance least hstack
      exact hadvance.trans (hadvance.sound.leaves_push hnew fun m hm => hm)

/-- What a step leaves to look at. -/
theorem leaves_step (hs : Sound s) (h : step p s = some (looks, s')) : Leaves s looks s' := by
  unfold step at h
  split at h
  · rename_i hstack
    split at h
    · cases h
    · rename_i root roots hroots
      split at h
      · cases h
        exact hs.leaves_skip hroots
      -- A root that has no layer was not seen either: with an empty stack, all that was seen was
      -- found.
      · rename_i hlookup
        cases h
        have hroot := hs.roots_known root (hroots ▸ List.mem_cons_self)
        have hnew : root ∉ s.seen := by
          intro h
          simpa [State.path, hstack, hlookup] using (hs.tracks root).1 h
        have hpush := @leaves_push _ _ _ s roots ⟨root, hroot⟩ hs hnew
          fun m hm => hroots ▸ List.mem_cons_of_mem root hm
        rwa [hstack] at hpush
  · rename_i hstack
    cases h
    exact hs.leaves_close hstack
  · rename_i hstack
    cases h
    exact hs.leaves_look hstack

/-- What a run leaves to look at. -/
theorem leaves_steps (hs : Sound s) (h : Steps p s looks s') : Leaves s looks s' := by
  induction h with
  | refl s => exact ⟨hs, nofun, fun _ => rfl⟩
  | step hstep _ ih =>
    have hleaves := hs.leaves_step hstep
    exact hleaves.trans (ih hleaves.sound)

end Sound

/-- In the beginning nothing is on the stack and nothing is found, which is
sound. -/
theorem sound_start (p : Predecessors ι) : Sound (⟨p.nodes, [], [], []⟩ : State p.nodes) where
  tracks := by simp [Tracks, State.path]
  nodup := List.nodup_nil
  fresh := nofun
  path_known := nofun
  roots_known := fun _ hn => hn

/-- The layering finds the layers that the recursion finds, and one for every
node. It is a run that comes to its end, and for each node it looks at the
predecessors of the node in order, at each of them once, and at nothing
else. -/
theorem assign_by_recursion (p : Predecessors ι) :
    assign p = resolveAll p ∧ (∀ n ∈ p.nodes, ((assign p).lookup n).isSome) ∧
      ∃ looks seen, Steps p ⟨p.nodes, [], [], []⟩ looks ⟨[], seen, assign p, []⟩ ∧
        step p ⟨[], seen, assign p, []⟩ = none ∧
        ∀ n, looksOf n looks = if n ∈ p.nodes then (p.of n).map Subtype.val else [] := by
  have hall : ∀ n ∈ p.nodes, ((assign p).lookup n).isSome := by
    intro n hn
    rw [assign_eq]
    exact lookup_resolveAll hn
  obtain ⟨looks, seen, hsteps⟩ := steps_assign p
  have hleaves := (sound_start p).leaves_steps hsteps
  -- In the end nothing is left to look at, so all predecessors of a node were looked at.
  refine ⟨assign_eq p, hall, looks, seen, hsteps, rfl, fun n => ?_⟩
  split
  · rename_i hn
    have htodo := hleaves.todo n
    simp only [todo, hall n hn, List.lookup_nil, Option.isSome_none, Bool.false_eq_true, if_false,
      if_true, List.append_nil, waiting] at htodo
    exact htodo.symm
  · rename_i hn
    have hnone : looks.filter (fun look => look.1 = n) = [] := by
      rw [List.filter_eq_nil_iff]
      intro look hlook heq
      exact hn (of_decide_eq_true heq ▸ hleaves.known look hlook)
    rw [looksOf, hnone]
    rfl

end Flowchart.Layout

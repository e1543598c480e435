import Flowchart.Builder
import Flowchart.Proofs.Draft.Recursion
import Flowchart.Proofs.Kinds.Marks

/-!
# `Flowchart.Proofs.Draft.Faultless`: drafts in which nothing fails

A draft can only fail at a kind: at one that cannot be looked up, or at that
of a loop, which has to be a text for the loop to have a word. Grammars name
all kinds. So nothing fails in the draft of a tree that a grammar gives, and
with a whole number as the limit its graph is built.

* `Faultless`: a drafting fails nowhere, and what can be said of its result;
* `faultless_serve`: serving a request about named kinds fails nowhere;
* `build_of_named`: the graph of a tree of named kinds is built.
-/

set_option autoImplicit false

namespace Flowchart

/-- Every kind in a tree is a text. -/
def SyntaxTree.KindsNamed (tree : SyntaxTree) : Prop :=
  ∀ s ∈ tree.subtrees, ∃ name, s.label.kind = .string name

namespace Draft

/-- Nothing has failed in a draft. -/
def Clean (d : Draft) : Prop :=
  ∀ fault, .failed fault ∉ d.log.toList

/-- On a clean draft, a drafting gives a result of some kind and fails
nowhere. -/
def Faultless {α : Type} (drafting : Drafting α) (Q : α → Prop) : Prop :=
  ∀ d, Clean d → Q (drafting d).1 ∧ Clean (drafting d).2

namespace Faultless

variable {α β : Type} {drafting : Drafting α} {continuation : α → Drafting β} {Q Q' : α → Prop}
  {R : β → Prop}

/-- To give a result draws nothing and fails nowhere. -/
theorem pure {x : α} (h : Q x) : Faultless (Pure.pure x) Q :=
  fun _ hd => ⟨h, hd⟩

/-- One drafting behind another fails nowhere if neither does. -/
theorem bind (h : Faultless drafting Q) (h' : ∀ x, Q x → Faultless (continuation x) R) :
    Faultless (drafting >>= continuation) R := by
  intro d hd
  obtain ⟨hx, hbetween⟩ := h d hd
  exact h' (drafting d).1 hx (drafting d).2 hbetween

/-- What an event that is no failure leaves is clean. -/
theorem push {d : Draft} (hd : Clean d) (event : Event) (h : ∀ fault, event ≠ .failed fault)
    (next : Nat) : Clean ⟨next, d.log.push event⟩ := by
  intro fault hfault
  rw [Array.toList_push, List.mem_append, List.mem_singleton] at hfault
  exact hfault.elim (hd fault) fun heq => h fault heq.symm

/-- A block can always be made. -/
theorem newBlock (kind : BlockKind) (node : NodeInfo) (path : Path) (caption : Caption) :
    Faultless (newBlock kind node path caption) fun _ => True :=
  fun d hd => ⟨trivial, push hd (.block ⟨d.next, kind, node, path, caption⟩) nofun _⟩

/-- An edge can always be added. -/
theorem addEdge (source target : Nat) (flow : Flow) :
    Faultless (addEdge source target flow) fun _ => True :=
  fun _ hd => ⟨trivial, push hd (.edge ⟨source, target, flow⟩) nofun _⟩

/-- Where there is nothing to refuse, nothing fails. -/
theorem refuse {kind? : Option Json} (h : kind? = none) :
    Faultless (refuse kind?) fun _ => True := by
  subst h
  exact pure trivial

/-- Some blocks can always be joined with one. -/
theorem joinAll (sources : List Nat) (target : Nat) (flow : Flow) :
    Faultless (Construct.joinAll sources target flow) fun _ => True := by
  induction sources with
  | nil => exact pure trivial
  | cons source sources ih => exact (addEdge source target flow).bind fun _ _ => ih

end Faultless

/-! ### Constructs -/

/-- The kind that a construct refuses when it is closed. -/
def Construct.refusal? : Construct → Option Json
  | .branch _ _ refusal _ _ => refusal
  | _ => none

/-- A construct refuses nothing when it is closed. -/
def Construct.Willing (construct : Construct) : Prop :=
  construct.refusal? = none

/-- A willing construct receives any part without failing, and stays willing. -/
theorem faultless_receive {construct : Construct} (h : construct.Willing) (part : Part)
    (result : Option Fragment) : Faultless (construct.receive part result) Construct.Willing := by
  cases result with
  | none => exact .pure h
  | some fragment =>
    -- No part makes a construct refuse: it draws edges and keeps what it got.
    simp only [Construct.receive]
    split
    · exact .pure rfl
    · exact (Faultless.joinAll _ _ _).bind fun _ _ => .pure rfl
    · exact (Faultless.addEdge _ _ _).bind fun _ _ => .pure h
    · exact (Faultless.addEdge _ _ _).bind fun _ _ => .pure h
    · exact (Faultless.addEdge _ _ _).bind fun _ _ =>
        (Faultless.joinAll _ _ _).bind fun _ _ => .pure rfl
    · exact (Faultless.addEdge _ _ _).bind fun _ _ => .pure rfl
    · exact .pure rfl
    · exact .pure h

/-- A willing construct is closed without failing. -/
theorem faultless_finish {construct : Construct} (h : construct.Willing) :
    Faultless construct.finish fun _ => True := by
  cases construct with
  | done result => exact .pure trivial
  | chain linked => exact .pure trivial
  | branch header hasAlternative refusal whenTrue whenFalse =>
    exact (Faultless.refuse h).bind fun _ _ => .pure trivial
  | loop header => exact .pure trivial
  | choice header exits => exact .pure trivial
  | function entry node path body =>
    cases body with
    | none => exact .pure trivial
    | some body =>
      exact (Faultless.addEdge _ _ _).bind fun _ _ => (Faultless.newBlock _ _ _ _).bind fun _ _ =>
        (Faultless.joinAll _ _ _).bind fun _ _ => .pure trivial

end Draft

namespace MarkedTree

/-- Every kind in a marked tree is a text. -/
def KindsNamed (t : MarkedTree) : Prop :=
  ∀ s ∈ t.subtrees, ∃ name, s.label.kind = .string name

namespace KindsNamed

variable {table : KindTable} {t : MarkedTree}

/-- Where all kinds are names, those below any node are. -/
theorem of_mem_subtrees (h : t.KindsNamed) {s : MarkedTree} (hs : s ∈ t.subtrees) : s.KindsNamed :=
  fun u hu => h u (Tree.mem_subtrees_trans hs hu)

/-- Where all kinds are names, each is a key. -/
theorem isKey (h : t.KindsNamed) {s : MarkedTree} (hs : s ∈ t.subtrees) :
    s.label.kind.isKey = true := by
  obtain ⟨name, hname⟩ := h s hs
  rw [hname]
  rfl

/-- The kinds of the children are keys. -/
theorem isKey_of_mem_children (h : t.KindsNamed) {s : MarkedTree} (hs : s ∈ t.children) :
    s.label.kind.isKey = true :=
  h.isKey (Tree.mem_subtrees_of_mem_children hs (Tree.mem_subtrees_self s))

/-- Where all kinds are keys, none is refused. -/
theorem firstRefused?_eq_none {ts : List MarkedTree}
    (h : ∀ s ∈ ts, s.label.kind.isKey = true) : firstRefused? ts = none := by
  rw [firstRefused?, Option.map_eq_none_iff, List.find?_eq_none]
  intro s hs
  simp [h s hs]

/-- Where all kinds are names, no search for a child is refused. -/
theorem childRefusal? (h : t.KindsNamed) (role : Role) : t.childRefusal? table role = none :=
  childRefusal?_eq_none fun _ hs => h.isKey_of_mem_children hs

/-- Where all kinds are names, no search for arms is refused. -/
theorem armRefusal? (h : t.KindsNamed) : t.armRefusal? table = none := by
  refine firstRefused?_eq_none fun s hs => h.isKey ?_
  obtain ⟨child, hchild, hs⟩ := Tree.mem_allSubtrees.1 (mem_subtrees_of_mem_lookedAt hs)
  exact Tree.mem_subtrees_of_mem_children hchild hs

end KindsNamed

end MarkedTree

namespace Draft

open MarkedTree

/-! ### Requests -/

section

variable {table : KindTable} {r : Request}

/-- The header of a loop is made without failing if its kind is a name. -/
theorem faultless_loopHeader {node : NodeInfo} (h : ∃ name, node.kind = .string name) (path : Path)
    (condition : Option NodeInfo) :
    Faultless (Request.loopHeader node path condition) fun _ => True := by
  obtain ⟨name, hname⟩ := h
  obtain ⟨word, hword⟩ : ∃ word, Request.loopWord? node.kind = some word := by
    rw [hname, Request.loopWord?]
    split
    · exact ⟨_, rfl⟩
    · split <;> exact ⟨_, rfl⟩
  rw [Request.loopHeader, hword]
  exact Faultless.bind (Q := fun _ => True) (.pure trivial) fun _ _ => .newBlock _ _ _ _

/-- Where all kinds are names, every construct is opened without failing, and is
willing. -/
theorem faultless_start (h : r.tree.KindsNamed) :
    Faultless (r.start table) Construct.Willing := by
  -- What a construct looks up when it is opened are kinds of the tree, and those are all texts.
  unfold Request.start
  cases r.mode with
  | chain => exact .pure rfl
  | visit =>
    have hself : firstRefused? [r.tree] = none :=
      KindsNamed.firstRefused?_eq_none fun s hs => by
        rw [List.mem_singleton.1 hs]
        exact h.isKey (Tree.mem_subtrees_self _)
    refine (Faultless.refuse hself).bind fun _ _ => ?_
    split
    · exact (Faultless.refuse (h.childRefusal? _)).bind fun _ _ =>
        (Faultless.newBlock _ _ _ _).bind fun _ _ =>
          (Faultless.refuse (h.childRefusal? _)).bind fun _ _ => .pure (h.childRefusal? _)
    · exact (Faultless.refuse (h.childRefusal? _)).bind fun _ _ =>
        (faultless_loopHeader (h _ (Tree.mem_subtrees_self _)) _ _).bind fun _ _ =>
          (Faultless.refuse (h.childRefusal? _)).bind fun _ _ => .pure rfl
    · exact (Faultless.newBlock _ _ _ _).bind fun _ _ =>
        (Faultless.refuse h.armRefusal?).bind fun _ _ => .pure rfl
    · exact (Faultless.newBlock _ _ _ _).bind fun _ _ => .pure rfl
    · exact (Faultless.refuse (h.childRefusal? _)).bind fun _ _ =>
        (Faultless.newBlock _ _ _ _).bind fun _ _ =>
          (Faultless.refuse (h.childRefusal? _)).bind fun _ _ => .pure rfl
    · split
      · exact .pure rfl
      · split
        · exact (Faultless.newBlock _ _ _ _).bind fun _ _ => .pure rfl
        · exact .pure rfl

/-- Parts are received one after the other without a fault if each of them is
served without one. -/
theorem faultless_serveParts {parts : List (Part × Request)}
    (h : ∀ p ∈ parts, Faultless (serve table p.2) fun _ => True) {construct : Construct}
    (hconstruct : construct.Willing) :
    Faultless (serveParts table parts construct) Construct.Willing := by
  induction parts generalizing construct with
  | nil => exact .pure hconstruct
  | cons p parts ih =>
    rw [serveParts_cons]
    refine (h p List.mem_cons_self).bind fun result _ => ?_
    refine (faultless_receive hconstruct p.1 result).bind fun resumed hresumed => ?_
    exact ih (fun q hq => h q (List.mem_cons_of_mem _ hq)) hresumed

end

/-- Nothing fails while a request about named kinds is served. -/
theorem faultless_serve {table : KindTable} {r : Request} (h : r.tree.KindsNamed) :
    Faultless (serve table r) fun _ => True := by
  rw [serve_eq]
  refine (faultless_start h).bind fun opened hopened => ?_
  have hparts : ∀ p ∈ r.parts table, Faultless (serve table p.2) fun _ => True := fun p hp =>
    faultless_serve (h.of_mem_subtrees (Request.mem_subtrees_of_mem_parts hp))
  exact (faultless_serveParts hparts hopened).bind fun received hreceived =>
    faultless_finish hreceived
termination_by r.tree.size
decreasing_by exact Request.parts_size_lt hp

/-- The draft of a tree of named kinds is clean. -/
theorem clean_draft {table : KindTable} {tree : MarkedTree} (h : tree.KindsNamed) :
    Clean (draft table tree).draft := by
  have hself : firstRefused? [tree] = none :=
    KindsNamed.firstRefused?_eq_none fun s hs => by
      rw [List.mem_singleton.1 hs]
      exact h.isKey (Tree.mem_subtrees_self _)
  have hopening : Clean (opening tree) := (Faultless.refuse hself empty nofun).2
  rw [draft_draft]
  exact (faultless_serve (r := rootRequest table tree) h (opening tree) hopening).2

end Draft

/-! ### Graphs -/

section

variable {table : KindTable} {tree : SyntaxTree}

/-- Marks do not change the kinds. -/
theorem SyntaxTree.KindsNamed.mark (h : tree.KindsNamed) : (table.mark tree).KindsNamed := by
  intro s hs
  rw [KindTable.subtrees_mark] at hs
  obtain ⟨t, ht, rfl⟩ := List.mem_map.1 hs
  obtain ⟨name, hname⟩ := h t ht
  exact ⟨name, by rw [← hname, ← table.mark_label t]⟩

/-- A row whose kinds are keys is not refused. -/
theorem KindTable.rowRefusal?_eq_none {ts : List MarkedTree}
    (h : ∀ t ∈ ts, t.label.kind.isKey = true) : table.rowRefusal? ts = none := by
  induction ts with
  | nil => rfl
  | cons t ts ih =>
    have hkey : t.kind.isKey = true := h t List.mem_cons_self
    have hrest := ih fun s hs => h s (List.mem_cons_of_mem t hs)
    simp [rowRefusal?, hkey, hrest]

/-- Trees none of which is refused are not refused together. -/
theorem KindTable.markRefusals?_eq_none {ts : List MarkedTree}
    (h : ∀ t ∈ ts, table.markRefusal? t = none) : table.markRefusals? ts = none := by
  induction ts with
  | nil => rfl
  | cons t ts ih =>
    have hrest := ih fun s hs => h s (List.mem_cons_of_mem t hs)
    rw [markRefusals?, hrest, h t List.mem_cons_self]
    rfl

/-- Marking refuses no named kind. -/
theorem KindTable.markRefusal?_eq_none {t : MarkedTree} (h : t.KindsNamed) :
    table.markRefusal? t = none := by
  induction t using Tree.induction with
  | node info children ih =>
    have hchildren : ∀ s ∈ children, table.markRefusal? s = none := fun s hs =>
      ih s hs (h.of_mem_subtrees (Tree.mem_subtrees_of_mem_children hs (Tree.mem_subtrees_self s)))
    have hkeys : ∀ s ∈ children, s.label.kind.isKey = true := fun s hs =>
      h.isKey_of_mem_children hs
    rw [markRefusal?, markRefusals?_eq_none hchildren, rowRefusal?_eq_none hkeys]
    rfl

/-- The graph of a tree of named kinds is built, if the limit is a whole
number. -/
theorem Builder.build_of_named (builder : Builder) {n : Int} (hlimit : builder.limit = .int n)
    (h : tree.KindsNamed) :
    ∃ notices, (builder.build tree).2 =
      .ok (graphOf builder.table builder.source n tree, notices) := by
  have hgraph := builder.build_eq_graphOf n tree hlimit (KindTable.markRefusal?_eq_none h.mark)
    (Draft.clean_draft h.mark)
  cases hbuild : (builder.build tree).2 with
  | error fault =>
    rw [hbuild] at hgraph
    cases hgraph
  | ok result =>
    rw [hbuild] at hgraph
    obtain ⟨graph, notices⟩ := result
    cases hgraph
    exact ⟨notices, rfl⟩

end

end Flowchart

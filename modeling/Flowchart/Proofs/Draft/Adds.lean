import Flowchart.Draft.Construct

/-!
# `Flowchart.Proofs.Draft.Adds`: what a drafting adds

A drafting gives a result and adds blocks and edges to the draft that it is
started on. Of that draft it only knows the next number. `Makes` says so
for a drafting, with what it gives and adds; each step that there is has its
own law, and the laws of the steps are put together with `bind`.

* `Adds`: one draft is another one with blocks and edges added;
* `Makes`: what a drafting gives and adds on any draft with a given next
  number. What could not be done leaves neither.
-/

set_option autoImplicit false

namespace Flowchart.Draft

/-- Edges from several blocks to one. -/
def joins (sources : List Nat) (target : Nat) (flow : Flow) : List Edge :=
  sources.map fun source => ⟨source, target, flow⟩

/-- A draft is another one with blocks and edges added. -/
structure Adds (before after : Draft) (blocks : List Block) (edges : List Edge) : Prop where
  next : after.next = before.next + blocks.length
  blocks : after.blocks = before.blocks ++ blocks
  edges : after.edges = before.edges ++ edges

/-- What is added first, and then what is added to that, are added together. -/
theorem Adds.trans {before between after : Draft} {blocks blocks' : List Block}
    {edges edges' : List Edge} (h : Adds before between blocks edges)
    (h' : Adds between after blocks' edges') :
    Adds before after (blocks ++ blocks') (edges ++ edges') where
  next := by rw [h'.next, h.next, List.length_append, Nat.add_assoc]
  blocks := by rw [h'.blocks, h.blocks, List.append_assoc]
  edges := by rw [h'.edges, h.edges, List.append_assoc]

/-- On any draft whose next number is `a`, a drafting gives a result and adds
blocks and edges. -/
def Makes {α : Type} (drafting : Drafting α) (a : Nat) (result : α) (blocks : List Block)
    (edges : List Edge) : Prop :=
  ∀ before : Draft, before.next = a →
    (drafting before).1 = result ∧ Adds before (drafting before).2 blocks edges

namespace Makes

variable {α β : Type} {drafting : Drafting α} {continuation : α → Drafting β} {a : Nat} {x : α}
  {y : β} {blocks blocks' : List Block} {edges edges' : List Edge}

/-- To give a result makes nothing. -/
theorem pure (a : Nat) (x : α) : Makes (Pure.pure x : Drafting α) a x [] [] :=
  fun _ _ => ⟨rfl, rfl, (List.append_nil _).symm, (List.append_nil _).symm⟩

/-- One drafting behind another makes what both make, the second one from where
the first one ends. -/
theorem bind (h : Makes drafting a x blocks edges)
    (h' : Makes (continuation x) (a + blocks.length) y blocks' edges') :
    Makes (drafting >>= continuation) a y (blocks ++ blocks') (edges ++ edges') := by
  intro before ha
  obtain ⟨hx, hadds⟩ := h before ha
  subst hx
  -- The second drafting starts on what the first one leaves.
  obtain ⟨hy, hadds'⟩ := h' (drafting before).2 (by rw [hadds.next, ha])
  exact ⟨hy, hadds.trans hadds'⟩

/-- A last step that only gives a result. -/
theorem give (h : Makes drafting a x blocks edges) (f : α → β) :
    Makes (drafting >>= fun x => Pure.pure (f x)) a (f x) blocks edges := by
  have hgive : Makes (Pure.pure (f x) : Drafting β) (a + blocks.length) (f x) [] [] := pure _ _
  have h' : Makes (drafting >>= fun x => Pure.pure (f x)) a (f x) (blocks ++ []) (edges ++ []) :=
    h.bind hgive
  rwa [List.append_nil, List.append_nil] at h'

/-- A step that adds nothing. -/
theorem skip (h : Makes drafting a x [] []) (h' : Makes (continuation x) a y blocks edges) :
    Makes (drafting >>= continuation) a y blocks edges :=
  bind h h'

/-- A step that only makes a block. -/
theorem block {made : Block} (h : Makes drafting a x [made] [])
    (h' : Makes (continuation x) (a + 1) y blocks edges) :
    Makes (drafting >>= continuation) a y (made :: blocks) edges :=
  bind h h'

/-- A step that only draws edges. -/
theorem draw (h : Makes drafting a x [] edges)
    (h' : Makes (continuation x) a y blocks edges') :
    Makes (drafting >>= continuation) a y blocks (edges ++ edges') :=
  bind h h'

/-- A new block has the next number. -/
theorem newBlock (kind : BlockKind) (node : NodeInfo) (path : Path) (caption : Caption) (a : Nat) :
    Makes (newBlock kind node path caption) a a [⟨a, kind, node, path, caption⟩] [] := by
  rintro before rfl
  exact ⟨rfl, rfl, by simp [Draft.newBlock, Draft.blocks, Event.block?],
    by simp [Draft.newBlock, Draft.edges, List.filterMap_cons, Event.edge?]⟩

/-- An edge that is added is made. -/
theorem addEdge (source target : Nat) (flow : Flow) (a : Nat) :
    Makes (addEdge source target flow) a () [] [⟨source, target, flow⟩] :=
  fun before _ => ⟨rfl, rfl,
    by simp [Draft.addEdge, Draft.blocks, List.filterMap_cons, Event.block?],
    by simp [Draft.addEdge, Draft.edges, Event.edge?]⟩

/-- What is cut off makes nothing. -/
theorem cut (node : NodeInfo) (a : Nat) : Makes (cut node) a () [] [] :=
  fun before _ => ⟨rfl, rfl, by simp [Draft.cut, Draft.blocks, List.filterMap_cons, Event.block?],
    by simp [Draft.cut, Draft.edges, List.filterMap_cons, Event.edge?]⟩

/-- A fault makes nothing. -/
theorem fail (fault : Fault) (a : Nat) : Makes (fail fault) a () [] [] :=
  fun before _ => ⟨rfl, rfl, by simp [Draft.fail, Draft.blocks, List.filterMap_cons, Event.block?],
    by simp [Draft.fail, Draft.edges, List.filterMap_cons, Event.edge?]⟩

/-- A refusal makes nothing. -/
theorem refuse (kind? : Option Json) (a : Nat) : Makes (refuse kind?) a () [] [] := by
  cases kind? with
  | none => exact pure a ()
  | some kind => exact fail _ a

/-- To join some blocks with one makes an edge from each of them. -/
theorem joinAll (sources : List Nat) (target : Nat) (flow : Flow) (a : Nat) :
    Makes (Construct.joinAll sources target flow) a () [] (joins sources target flow) := by
  induction sources with
  | nil => exact pure a ()
  | cons source sources ih =>
    -- A loop over the sources draws the first edge, and then goes on as the rest of it.
    have hjoin : Construct.joinAll (source :: sources) target flow = (do
        Draft.addEdge source target flow
        Construct.joinAll sources target flow) := rfl
    rw [hjoin]
    exact (addEdge source target flow a).draw ih

end Makes

end Flowchart.Draft

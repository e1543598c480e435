import Flowchart.Proofs.Draft.Tagged
import Flowchart.Proofs.Outline.Served

/-!
# `Flowchart.Proofs.Draft.Ledger`: for which nodes blocks are made

A draft does not say for which occurrence of a node a block was made, since
two nodes of a tree can say the same. Where the nodes carry tags, it can be
noted while a tree is drafted: with each request the tag of its node, and with
each block the tag of the node whose construct is opened or closed by it.
Taking notes changes nothing of the draft.

The notes are put together as the tree is. A construct notes its own node
once, opens with at most one block and closes with at most one, and behind it
come the notes of its parts. So a block is always about the node of some
request, and shows what that node calls for. Where the parts share no node, a
node is asked for once at most, and has one block at most that is no exit, and
one at most that is; and only a function closes with a block.

* `Ledger`, `serveNoting`: drafting with notes;
* `Notes`: taking notes leaves the draft and the results as they are;
* `Request.Shows`, `Request.Owns`: the blocks that a request makes;
* `notes_induction`: what passes from the notes of the parts of a request to
  its own holds of the notes of every request;
* `notes_origin`: which requests the blocks are made for;
* `Accounts`, `notes_serveNoting`: how often a node is asked for, and how many
  blocks it is given.
-/

set_option autoImplicit false

namespace Flowchart.Draft

open Flowchart.Tree hiding node
open TaggedTree

/-- A draft with notes. -/
structure Ledger (ι : Type) where
  draft : Draft
  /-- The nodes that were asked for. -/
  asked : List ι
  /-- The blocks that were made, each with the node it was made for. -/
  made : List (ι × Block)

/-- The blocks that were made for a node. -/
def Ledger.madeFor {ι : Type} [DecidableEq ι] (ledger : Ledger ι) (tag : ι) : List Block :=
  (ledger.made.filter fun entry => entry.1 = tag).map Prod.snd

/-- Steps that add to a draft and take notes. -/
abbrev Noting (ι : Type) := StateM (Ledger ι)

section

variable {ι α β : Type}

/-- Notes that a node is asked for. -/
def noteAsked (tag : ι) : Noting ι Unit :=
  fun ledger => ((), { ledger with asked := ledger.asked ++ [tag] })

/-- Takes a step for a node, and notes the blocks that it adds. -/
def noteMade (tag : ι) (drafting : Drafting α) : Noting ι α :=
  fun ledger =>
    let (result, draft) := drafting ledger.draft
    let added := draft.blocks.drop ledger.draft.blocks.length
    (result, { ledger with draft, made := ledger.made ++ added.map fun block => (tag, block) })

/-- Serves a request as `serve` does, and takes notes. -/
def serveNoting (table : KindTable) (q : Ask ι) : Noting ι (Option Fragment) := do
  noteAsked q.tree.tag
  let construct ← noteMade q.tree.tag (q.request.start table)
  let construct ← (q.parts table).attach.foldlM
    (fun construct ⟨(part, p), _⟩ => do
      noteMade q.tree.tag (construct.receive part (← serveNoting table p))) construct
  noteMade q.tree.tag construct.finish
termination_by q.request.tree.size
decreasing_by exact Ask.parts_size_lt ‹_›

/-- Serves parts of a construct one after the other, and takes notes. -/
def servePartsNoting (table : KindTable) (tag : ι) (parts : List (Part × Ask ι))
    (construct : Construct) : Noting ι Construct :=
  parts.foldlM
    (fun construct p => do noteMade tag (construct.receive p.1 (← serveNoting table p.2))) construct

/-- The first part is served and received before the others, and what it makes
is noted. -/
theorem servePartsNoting_cons (table : KindTable) (tag : ι) (p : Part × Ask ι)
    (parts : List (Part × Ask ι)) (construct : Construct) :
    servePartsNoting table tag (p :: parts) construct = (do
      let result ← serveNoting table p.2
      let construct ← noteMade tag (construct.receive p.1 result)
      servePartsNoting table tag parts construct) := by
  rw [servePartsNoting, List.foldlM_cons, bind_assoc]
  rfl

/-- A request is noted, and then what is made when its construct is opened, when
its parts are served and when it is closed. -/
theorem serveNoting_eq (table : KindTable) (q : Ask ι) :
    serveNoting table q = (do
      noteAsked q.tree.tag
      let construct ← noteMade q.tree.tag (q.request.start table)
      let construct ← servePartsNoting table q.tree.tag (q.parts table) construct
      noteMade q.tree.tag construct.finish) := by
  have hparts : ∀ construct, servePartsNoting table q.tree.tag (q.parts table) construct =
      (q.parts table).attach.foldlM
        (fun construct p => do
          noteMade q.tree.tag (construct.receive p.1.1 (← serveNoting table p.1.2)))
        construct := by
    intro construct
    -- The parts are folded along with the proof that they are parts, which is dropped here.
    have h := @List.foldlM_map (Noting ι) _ _ _ _ Subtype.val
      (fun construct (p : Part × Ask ι) => do
        noteMade q.tree.tag (construct.receive p.1 (← serveNoting table p.2)))
      (q.parts table).attach construct
    rwa [List.attach_map_subtype_val] at h
  rw [serveNoting]
  simp only [hparts]

/-! ### Notes and drafts -/

/-- On any draft, taking notes gives what drafting gives and leaves the draft
that it leaves, and what is noted of the blocks that are added has a property,
with the result. -/
def Notes (noting : Noting ι α) (drafting : Drafting α)
    (P : α → List ι → List (ι × Block) → Prop) : Prop :=
  ∀ before : Ledger ι,
    (noting before).1 = (drafting before.draft).1 ∧
      (noting before).2.draft = (drafting before.draft).2 ∧
      ∃ asked made, P (drafting before.draft).1 asked made ∧
        (noting before).2.asked = before.asked ++ asked ∧
        (noting before).2.made = before.made ++ made ∧
        (drafting before.draft).2.blocks = before.draft.blocks ++ made.map Prod.snd

namespace Notes

variable {noting : Noting ι α} {drafting : Drafting α} {P : α → List ι → List (ι × Block) → Prop}

/-- What is noted by one drafting behind another is noted by the first and then
by the second. -/
theorem bind {next : α → Noting ι β} {next' : α → Drafting β}
    {Q : β → List ι → List (ι × Block) → Prop} (h : Notes noting drafting P)
    (h' : ∀ x asked made, P x asked made →
      Notes (next x) (next' x) fun y asked' made' => Q y (asked ++ asked') (made ++ made')) :
    Notes (noting >>= next) (drafting >>= next') Q := by
  intro before
  obtain ⟨hresult, hdraft, asked, made, hP, hasked, hmade, hblocks⟩ := h before
  obtain ⟨hresult', hdraft', asked', made', hQ, hasked', hmade', hblocks'⟩ :=
    h' _ _ _ hP (noting before).2
  have hnoting : (noting >>= next) before = next (noting before).1 (noting before).2 := rfl
  have hdrafting : (drafting >>= next') before.draft =
      next' (drafting before.draft).1 (drafting before.draft).2 := rfl
  rw [hdraft] at hresult' hdraft' hQ hblocks'
  rw [hnoting, hdrafting, hresult]
  exact ⟨hresult', hdraft', asked ++ asked', made ++ made', hQ,
    by rw [hasked', hasked, List.append_assoc], by rw [hmade', hmade, List.append_assoc],
    by rw [hblocks', hblocks, List.map_append, List.append_assoc]⟩

/-- What is noted may be said more loosely. -/
theorem mono {Q : α → List ι → List (ι × Block) → Prop} (h : Notes noting drafting P)
    (hPQ : ∀ x asked made, P x asked made → Q x asked made) : Notes noting drafting Q := by
  intro before
  obtain ⟨hresult, hdraft, asked, made, hP, hrest⟩ := h before
  exact ⟨hresult, hdraft, asked, made, hPQ _ _ _ hP, hrest⟩

/-- To give a result notes nothing. -/
theorem pure {x : α} (h : P x [] []) : Notes (Pure.pure x) (Pure.pure x) P :=
  fun _ => ⟨rfl, rfl, [], [], h, (List.append_nil _).symm, (List.append_nil _).symm,
    (List.append_nil _).symm⟩

/-- A request that is noted comes in front of the notes behind it. -/
theorem asked {tag : ι} (h : Notes noting drafting fun x asked made => P x (tag :: asked) made) :
    Notes (do noteAsked tag; noting) drafting P := by
  intro before
  obtain ⟨hresult, hdraft, asked, made, hP, hasked, hrest⟩ :=
    h { before with asked := before.asked ++ [tag] }
  refine ⟨hresult, hdraft, tag :: asked, made, hP, hasked.trans ?_, hrest⟩
  rw [List.append_assoc, List.singleton_append]

/-- A step that adds some blocks. -/
theorem made {tag : ι} {drafting : Drafting α}
    (h : ∀ before : Draft, ∃ blocks, (drafting before).2.blocks = before.blocks ++ blocks ∧
      P (drafting before).1 [] (blocks.map fun block => (tag, block))) :
    Notes (noteMade tag drafting) drafting P := by
  intro before
  obtain ⟨blocks, hblocks, hP⟩ := h before.draft
  refine ⟨rfl, rfl, [], _, hP, (List.append_nil _).symm, ?_, ?_⟩
  · have hadded : (drafting before.draft).2.blocks.drop before.draft.blocks.length = blocks := by
      rw [hblocks, List.drop_left]
    exact congrArg (fun added => before.made ++ added.map fun block => (tag, block)) hadded
  · rw [hblocks, List.map_map]
    exact congrArg _ (List.map_id blocks).symm

end Notes

/-! ### The blocks of a request -/

variable {table : KindTable}

/-- What the blocks of a request show: the kind of the block goes by the category
of the node, and the caption by the kind. -/
inductive Request.Shows (table : KindTable) (r : Request) : BlockKind → Caption → Prop where
  | branch (h : table.category? r.tree.label.kind = some .branch) :
      Shows table r .branch (.branch (infoOf (r.tree.condition? table)))
  | loop (h : table.category? r.tree.label.kind = some .loop) :
      Shows table r .loop (.loop ((loopWord? r.tree.label.kind).getD [])
        (infoOf (r.tree.condition? table)))
  | choice (h : table.category? r.tree.label.kind = some .choice) : Shows table r .choice .choice
  | terminator (h : table.category? r.tree.label.kind = some .terminator) :
      Shows table r .terminator .whole
  | entry (h : table.category? r.tree.label.kind = some .function) :
      Shows table r .entry (.function (infoOf (r.tree.name? table)))
  | exit (h : table.category? r.tree.label.kind = some .function) :
      Shows table r .exit (.fixed "end")
  | statement (h : table.category? r.tree.label.kind = none) : Shows table r .statement .whole

/-- A block is one of those that a request makes itself. -/
structure Request.Owns (table : KindTable) (r : Request) (block : Block) : Prop where
  mode : r.mode = .visit
  node : block.node = r.tree.label.toNodeInfo
  path : block.path = r.path
  shows : r.Shows table block.kind block.caption

/-- A block is made for a node: it shows the node, and it closes the node only
if that is a function, which then opens with an entry. -/
structure MadeFor (table : KindTable) (label : MarkedInfo) (block : Block) : Prop where
  shows : block.node = label.toNodeInfo
  closes : block.kind = .exit → table.category? label.kind = some .function
  opens : table.category? label.kind = some .function → block.kind ≠ .exit → block.kind = .entry

/-- Only a function closes with a block, and what opens it is an entry. -/
theorem Request.Shows.function {r : Request} {kind : BlockKind} {caption : Caption}
    (h : r.Shows table kind caption) :
    (kind = .exit → table.category? r.tree.label.kind = some .function) ∧
      (table.category? r.tree.label.kind = some .function → kind ≠ .exit → kind = .entry) := by
  cases h with
  | entry h => exact ⟨nofun, fun _ _ => rfl⟩
  | exit h => exact ⟨fun _ => h, fun _ hexit => absurd rfl hexit⟩
  | branch h => exact ⟨nofun, fun hfunction => by cases h.symm.trans hfunction⟩
  | loop h => exact ⟨nofun, fun hfunction => by cases h.symm.trans hfunction⟩
  | choice h => exact ⟨nofun, fun hfunction => by cases h.symm.trans hfunction⟩
  | terminator h => exact ⟨nofun, fun hfunction => by cases h.symm.trans hfunction⟩
  | statement h => exact ⟨nofun, fun hfunction => by cases h.symm.trans hfunction⟩

/-- What a request makes is made for its node. -/
theorem Request.Owns.madeFor {r : Request} {block : Block} (h : r.Owns table block) :
    MadeFor table r.tree.label block :=
  ⟨h.node, h.shows.function.1, h.shows.function.2⟩

/-- A construct that closes with a block is a function, and the block is one of
those of its request. -/
def Construct.Closes (table : KindTable) (r : Request) : Construct → Prop
  | .function _ node path _ =>
    node = r.tree.label.toNodeInfo ∧ path = r.path ∧ r.mode = .visit ∧
      table.category? r.tree.label.kind = some .function
  | _ => True

/-- A construct opens with one block at most. -/
theorem makes_start_any (table : KindTable) (r : Request) (a : Nat) :
    ∃ construct, ∃ opened : Option Block, Makes (r.start table) a construct opened.toList [] ∧
      construct.Closes table r ∧ ∀ block ∈ opened, r.Owns table block ∧ block.kind ≠ .exit := by
  have hnone : ∀ block ∈ (none : Option Block), r.Owns table block ∧ block.kind ≠ .exit :=
    fun _ h => by cases h
  cases hmode : r.mode with
  | chain => exact ⟨_, none, makes_start_chain hmode a, trivial, hnone⟩
  | visit =>
    -- Whatever block is opened is owned by the request, and is no exit.
    have hopens : ∀ {kind : BlockKind} {caption : Caption}, r.Shows table kind caption →
        kind ≠ .exit → ∀ block ∈ some ((r.origin caption).block kind a),
          r.Owns table block ∧ block.kind ≠ .exit := by
      rintro kind caption hshows hkind _ ⟨⟩
      exact ⟨⟨hmode, rfl, rfl, hshows⟩, hkind⟩
    cases hcategory : table.category? r.tree.label.kind with
    | none =>
      cases hcontainer : table.isContainer r.tree.label with
      | true => exact ⟨_, none, makes_start_container hmode hcategory hcontainer a, trivial, hnone⟩
      | false =>
        cases hleaf : r.tree.label.isNamed && !table.isComment r.tree.label.kind with
        | true =>
          exact ⟨_, some _, makes_start_statement hmode hcategory hcontainer hleaf a, trivial,
            hopens (.statement hcategory) nofun⟩
        | false =>
          exact ⟨_, none, makes_start_nothing hmode hcategory hcontainer hleaf a, trivial, hnone⟩
    | some category =>
      cases category with
      | branch =>
        exact ⟨_, some _, makes_start_branch hmode hcategory a, trivial,
          hopens (.branch hcategory) nofun⟩
      | loop =>
        exact ⟨_, some _, makes_start_loop hmode hcategory a, trivial,
          hopens (.loop hcategory) nofun⟩
      | choice =>
        exact ⟨_, some _, makes_start_choice hmode hcategory a, trivial,
          hopens (.choice hcategory) nofun⟩
      | terminator =>
        exact ⟨_, some _, makes_start_terminator hmode hcategory a, trivial,
          hopens (.terminator hcategory) nofun⟩
      | function =>
        exact ⟨_, some _, makes_start_function hmode hcategory a, ⟨rfl, rfl, hmode, hcategory⟩,
          hopens (.entry hcategory) nofun⟩

/-- To receive a part makes no other construct. -/
theorem closes_receive {r : Request} {construct : Construct} (h : construct.Closes table r)
    (part : Part) (result : Option Fragment) (before : Draft) :
    (construct.receive part result before).1.Closes table r := by
  cases result with
  | none => exact h
  | some fragment =>
    simp only [Construct.receive]
    split
    all_goals exact h

/-- A construct closes with one block at most. -/
theorem makes_finish_any {r : Request} {construct : Construct} (h : construct.Closes table r)
    (a : Nat) :
    ∃ result, ∃ closed : Option Block, ∃ edges,
      Makes construct.finish a result closed.toList edges ∧
      ∀ block ∈ closed, r.Owns table block ∧ block.kind = .exit := by
  have hnone : ∀ block ∈ (none : Option Block), r.Owns table block ∧ block.kind = .exit :=
    fun _ h => by cases h
  cases construct with
  | done result => exact ⟨_, none, _, Makes.pure a result, hnone⟩
  | chain linked => exact ⟨_, none, _, Makes.pure a linked, hnone⟩
  | branch header hasAlternative refusal whenTrue whenFalse =>
    exact ⟨_, none, _, (Makes.refuse refusal a).give _, hnone⟩
  | loop header => exact ⟨_, none, _, Makes.pure a _, hnone⟩
  | choice header exits => exact ⟨_, none, _, Makes.pure a _, hnone⟩
  | function entry node path body =>
    cases body with
    | none => exact ⟨_, none, _, Makes.pure a _, hnone⟩
    -- Only a function with a body makes a block when it is closed.
    | some body =>
      obtain ⟨rfl, rfl, hmode, hcategory⟩ := h
      refine ⟨_, some _, _, makes_finish_function_some entry (r.origin .whole) body a, ?_⟩
      rintro _ ⟨⟩
      exact ⟨⟨hmode, rfl, rfl, .exit hcategory⟩, rfl⟩

/-! ### What one request notes -/

/-- What opening a construct notes. -/
theorem notes_start (q : Ask ι) :
    Notes (noteMade q.tree.tag (q.request.start table)) (q.request.start table)
      fun construct asked made => asked = [] ∧ construct.Closes table q.request ∧
        ∃ opened : Option Block, made = opened.toList.map (fun block => (q.tree.tag, block)) ∧
          ∀ block ∈ opened, q.request.Owns table block ∧ block.kind ≠ .exit := by
  refine Notes.made fun before => ?_
  obtain ⟨construct, opened, hmakes, hcloses, hopened⟩ :=
    makes_start_any table q.request before.next
  obtain ⟨rfl, hadds⟩ := hmakes before rfl
  exact ⟨_, hadds.blocks, rfl, hcloses, opened, rfl, hopened⟩

/-- Receiving a part notes nothing. -/
theorem notes_receive {tag : ι} {r : Request} {construct : Construct}
    (h : construct.Closes table r) (part : Part) (result : Option Fragment) :
    Notes (noteMade tag (construct.receive part result)) (construct.receive part result)
      fun resumed asked made => resumed.Closes table r ∧ asked = [] ∧ made = [] := by
  refine Notes.made fun before => ?_
  obtain ⟨resumed, _, hmakes⟩ := makes_receive construct part result before.next
  exact ⟨[], (hmakes before rfl).2.blocks, closes_receive h part result before, rfl, rfl⟩

/-- What closing a construct notes. -/
theorem notes_finish (q : Ask ι) {construct : Construct} (h : construct.Closes table q.request) :
    Notes (noteMade q.tree.tag construct.finish) construct.finish fun _ asked made => asked = [] ∧
      ∃ closed : Option Block, made = closed.toList.map (fun block => (q.tree.tag, block)) ∧
        ∀ block ∈ closed, q.request.Owns table block ∧ block.kind = .exit := by
  refine Notes.made fun before => ?_
  obtain ⟨_, closed, _, hmakes, hclosed⟩ := makes_finish_any h before.next
  exact ⟨_, (hmakes before rfl).2.blocks, rfl, closed, rfl, hclosed⟩

/-- The notes of some requests, one behind the other, each with a property. -/
inductive Collects (P : Ask ι → List ι → List (ι × Block) → Prop) :
    List (Part × Ask ι) → List ι → List (ι × Block) → Prop where
  | nil : Collects P [] [] []
  | cons {p : Part × Ask ι} {parts : List (Part × Ask ι)} {asked asked' : List ι}
      {made made' : List (ι × Block)} (h : P p.2 asked made) (h' : Collects P parts asked' made') :
      Collects P (p :: parts) (asked ++ asked') (made ++ made')

variable {P : Ask ι → List ι → List (ι × Block) → Prop}

/-- What a request notes of its parts. -/
theorem notes_parts (q : Ask ι) {parts : List (Part × Ask ι)}
    (h : ∀ p ∈ parts, Notes (serveNoting table p.2) (serve table p.2.request) fun _ => P p.2)
    {construct : Construct} (hconstruct : construct.Closes table q.request) :
    Notes (servePartsNoting table q.tree.tag parts construct)
      (serveParts table (parts.map fun p => (p.1, p.2.request)) construct)
      fun received asked made => received.Closes table q.request ∧
        Collects P parts asked made := by
  -- By induction on the parts that are left, for whatever construct has received so far.
  induction parts generalizing construct with
  | nil => exact Notes.pure ⟨hconstruct, .nil⟩
  | cons p parts ih =>
    rw [servePartsNoting_cons, List.map_cons, serveParts_cons]
    refine (h p List.mem_cons_self).bind fun result asked made hpart => ?_
    refine (notes_receive hconstruct p.1 result).bind fun resumed asked' made' hresumed => ?_
    obtain ⟨hresumed, rfl, rfl⟩ := hresumed
    refine (ih (fun p' hp' => h p' (List.mem_cons_of_mem p hp')) hresumed).mono ?_
    rintro received asked' made' ⟨hreceived, hparts⟩
    exact ⟨hreceived, .cons hpart hparts⟩

/-- What passes from the notes of the parts of a request to its own holds of the
notes of every request. The notes of a request are its node and the block that
opens it, then those of its parts, then the block that closes it. -/
theorem notes_induction
    (step : ∀ (q : Ask ι) (asked : List ι) (made : List (ι × Block)) (opened closed : Option Block),
      Collects P (q.parts table) asked made →
      (∀ block ∈ opened, q.request.Owns table block ∧ block.kind ≠ .exit) →
      (∀ block ∈ closed, q.request.Owns table block ∧ block.kind = .exit) →
      P q (q.tree.tag :: asked) (opened.toList.map (fun block => (q.tree.tag, block)) ++
        (made ++ closed.toList.map fun block => (q.tree.tag, block)))) (q : Ask ι) :
    Notes (serveNoting table q) (serve table q.request) fun _ => P q := by
  -- The induction is on the size of the tree: parts are smaller than what they are parts of.
  have hparts : ∀ p ∈ q.parts table, Notes (serveNoting table p.2) (serve table p.2.request)
      fun _ => P p.2 := fun p hp => notes_induction step p.2
  rw [serveNoting_eq, serve_eq, ← q.request_parts]
  refine Notes.asked ((notes_start q).bind fun construct asked made hstart => ?_)
  obtain ⟨rfl, hconstruct, opened, rfl, hopened⟩ := hstart
  -- The three things that are done for a request, in order: open, serve the parts, close.
  refine (notes_parts q hparts hconstruct).bind fun received asked made hreceived => ?_
  obtain ⟨hreceived, hcollects⟩ := hreceived
  refine (notes_finish q hreceived).mono ?_
  rintro result _ _ ⟨rfl, closed, rfl, hclosed⟩
  rw [List.nil_append, List.append_nil]
  exact step q asked made opened closed hcollects hopened hclosed
termination_by q.request.tree.size
decreasing_by exact Ask.parts_size_lt hp

/-! ### Which requests blocks are made for -/

/-- A request is served for another one: it is that one, a part of it, a part of
a part, and so on. -/
def Ask.Reaches (table : KindTable) : Ask ι → Ask ι → Prop :=
  Relation.ReflTransGen fun q p => ∃ part, (part, p) ∈ q.parts table

/-- A block is made for the node with a tag, in serving a request: it is one of
those that some request for the node makes, which is served for that one. -/
def Ask.Makes (table : KindTable) (q : Ask ι) (tag : ι) (block : Block) : Prop :=
  ∃ p, q.Reaches table p ∧ p.tree.tag = tag ∧ p.request.Owns table block

/-- What is noted with the parts of a request is noted with one of them. -/
theorem Collects.exists_part {Q : Ask ι → ι × Block → Prop} {parts : List (Part × Ask ι)}
    {asked : List ι} {made : List (ι × Block)}
    (h : Collects (fun q _ made => ∀ entry ∈ made, Q q entry) parts asked made)
    {entry : ι × Block} (hentry : entry ∈ made) : ∃ p ∈ parts, Q p.2 entry := by
  induction h with
  | nil => cases hentry
  | cons h _ ih =>
    rcases List.mem_append.1 hentry with hentry | hentry
    · exact ⟨_, List.mem_cons_self, h entry hentry⟩
    · obtain ⟨p, hp, hQ⟩ := ih hentry
      exact ⟨p, List.mem_cons_of_mem _ hp, hQ⟩

/-- The notes say for which node each block is made. -/
theorem notes_origin (q : Ask ι) :
    Notes (serveNoting table q) (serve table q.request) fun _ _ made =>
      ∀ entry ∈ made, q.Makes table entry.1 entry.2 := by
  refine notes_induction (P := fun q _ made => ∀ entry ∈ made, q.Makes table entry.1 entry.2)
    (fun q asked made opened closed hcollects hopened hclosed entry hentry => ?_) q
  simp only [List.mem_append, List.mem_map, Option.mem_toList] at hentry
  rcases hentry with ⟨block, hblock, rfl⟩ | hentry | ⟨block, hblock, rfl⟩
  · exact ⟨q, .refl, rfl, (hopened block hblock).1⟩
  -- A block of a part is made for a request that is served for the part.
  · obtain ⟨⟨part, p⟩, hp, s, hreaches, htag, howns⟩ :=
      Collects.exists_part (Q := fun q entry => q.Makes table entry.1 entry.2) hcollects hentry
    exact ⟨s, .head ⟨part, hp⟩ hreaches, htag, howns⟩
  · exact ⟨q, .refl, rfl, (hclosed block hblock).1⟩

/-! ### How often nodes are asked for -/

/-- What the notes of some nodes say: each of them is asked for once at most,
and those that are asked for open with one block at most and close with one at
most. -/
structure Accounts (table : KindTable) (nodes : List (TaggedTree ι)) (asked : List ι)
    (made : List (ι × Block)) : Prop where
  once : asked.Subperm (nodes.map tag)
  opened : ((made.filter fun entry => entry.2.kind ≠ .exit).map Prod.fst).Subperm asked
  closed : ((made.filter fun entry => entry.2.kind = .exit).map Prod.fst).Subperm asked
  origin : ∀ entry ∈ made, ∃ t ∈ nodes, t.tag = entry.1 ∧ MadeFor table t.plain.label entry.2

namespace Accounts

variable {nodes nodes' : List (TaggedTree ι)} {asked asked' : List ι}
  {made made' : List (ι × Block)}

/-- For no nodes, nothing is asked and nothing made. -/
theorem nil : Accounts table ([] : List (TaggedTree ι)) [] [] :=
  ⟨List.nil_subperm, List.nil_subperm, List.nil_subperm, fun _ h => absurd h List.not_mem_nil⟩

/-- The accounts of two rows of nodes are one account of both. -/
theorem append (h : Accounts table nodes asked made) (h' : Accounts table nodes' asked' made') :
    Accounts table (nodes ++ nodes') (asked ++ asked') (made ++ made') where
  once := by
    rw [List.map_append]
    exact h.once.append h'.once
  opened := by
    rw [List.filter_append, List.map_append]
    exact h.opened.append h'.opened
  closed := by
    rw [List.filter_append, List.map_append]
    exact h.closed.append h'.closed
  origin entry hentry := by
    rcases List.mem_append.1 hentry with hentry | hentry
    · obtain ⟨t, ht, hmade⟩ := h.origin entry hentry
      exact ⟨t, List.mem_append_left _ ht, hmade⟩
    · obtain ⟨t, ht, hmade⟩ := h'.origin entry hentry
      exact ⟨t, List.mem_append_right _ ht, hmade⟩

/-- It makes no difference when the blocks were made. -/
theorem perm (h : Accounts table nodes asked made) (hperm : made.Perm made') :
    Accounts table nodes asked made' where
  once := h.once
  opened := ((hperm.filter _).map _).symm.subperm.trans h.opened
  closed := ((hperm.filter _).map _).symm.subperm.trans h.closed
  origin entry hentry := h.origin entry (hperm.mem_iff.2 hentry)

/-- What is said of some nodes is said of them among more. -/
theorem mono (h : Accounts table nodes asked made) (hnodes : nodes.Subperm nodes') :
    Accounts table nodes' asked made where
  once := by
    obtain ⟨others, hperm, hsublist⟩ := hnodes
    exact h.once.trans ((hperm.map tag).symm.subperm.trans (hsublist.map tag).subperm)
  opened := h.opened
  closed := h.closed
  origin entry hentry := by
    obtain ⟨t, ht, hmade⟩ := h.origin entry hentry
    exact ⟨t, hnodes.subset ht, hmade⟩

/-- What is noted of a node itself. -/
theorem own {t : TaggedTree ι} {opened closed : Option Block}
    (hopened : ∀ block ∈ opened, MadeFor table t.plain.label block ∧ block.kind ≠ .exit)
    (hclosed : ∀ block ∈ closed, MadeFor table t.plain.label block ∧ block.kind = .exit) :
    Accounts table [t] [t.tag]
      (opened.toList.map (fun block => (t.tag, block)) ++
        closed.toList.map fun block => (t.tag, block)) where
  once := List.Subperm.refl _
  -- The two blocks are of different kinds, so each filter keeps one of them at most.
  opened := by
    cases opened with
    | none => cases closed <;> simp_all
    | some first => cases closed <;> simp_all
  closed := by
    cases opened with
    | none => cases closed <;> simp_all
    | some first => cases closed <;> simp_all
  origin entry hentry := by
    refine ⟨t, List.mem_singleton_self t, ?_⟩
    simp only [List.mem_append, List.mem_map, Option.mem_toList] at hentry
    rcases hentry with ⟨block, hblock, rfl⟩ | ⟨block, hblock, rfl⟩
    · exact ⟨rfl, (hopened block hblock).1⟩
    · exact ⟨rfl, (hclosed block hblock).1⟩

/-- What the notes of some requests say of the nodes below them. -/
theorem of_collects {parts : List (Part × Ask ι)} {asked : List ι} {made : List (ι × Block)}
    (h : Collects (fun q => Accounts table q.tree.subtrees) parts asked made) :
    Accounts table (allSubtrees (parts.map fun p => p.2.tree)) asked made := by
  induction h with
  | nil => exact .nil
  | cons h _ ih => exact h.append ih

end Accounts

/-- The notes of a request: it is drafted as without them, and no node of its
tree is asked for twice or given more than its blocks. -/
theorem notes_serveNoting (harms : table.Apart .arms .armContainers)
    (hbodies : table.Apart .bodies .alternatives) (q : Ask ι) :
    Notes (serveNoting table q) (serve table q.request) fun _ =>
      Accounts table q.tree.subtrees := by
  refine notes_induction (P := fun q => Accounts table q.tree.subtrees)
    (fun q asked made opened closed hcollects hopened hclosed => ?_) q
  -- The blocks of the node itself come before and behind those of its parts.
  have hown : Accounts table [q.tree] [q.tree.tag]
      (opened.toList.map (fun block => (q.tree.tag, block)) ++
        closed.toList.map fun block => (q.tree.tag, block)) :=
    .own (fun block hblock => ⟨(hopened block hblock).1.madeFor, (hopened block hblock).2⟩)
      fun block hblock => ⟨(hclosed block hblock).1.madeFor, (hclosed block hblock).2⟩
  have hall := hown.append (.of_collects hcollects)
  rw [q.tree_parts] at hall
  have hnodes :
      ([q.tree] ++ allSubtrees (partsIn table q.mode q.tree)).Subperm q.tree.subtrees := by
    rw [subtrees_eq q.tree]
    exact (List.Subperm.refl [q.tree]).append (subperm_partsIn harms hbodies q.mode q.tree)
  refine (hall.mono hnodes).perm ?_
  rw [List.append_assoc]
  exact List.perm_append_comm.append_left _

end

end Flowchart.Draft

import Flowchart.Diagram.Basic

/-!
# `Flowchart.Diagram.Links`: who comes before and after whom

A link is an arrow whose boxes both exist; an arrow from or to nowhere joins
nothing. Links that repeat are kept, in order.
-/

set_option autoImplicit false

namespace Flowchart.Diagram

variable {ι : Type}

/-- An id that some box of a diagram has. -/
abbrev KnownId (diagram : Diagram ι) := { id : ι // id ∈ diagram.ids }

/-- An arrow between boxes of a diagram. -/
structure Link (diagram : Diagram ι) extends Arrow ι where
  source_mem : source ∈ diagram.ids
  target_mem : target ∈ diagram.ids

namespace Link

variable {diagram : Diagram ι}

/-- The box that a link starts at. -/
def start (link : Link diagram) : diagram.KnownId :=
  ⟨link.source, link.source_mem⟩

end Link

variable [DecidableEq ι]

/-- An arrow as a link, if both of its boxes exist. -/
def link? (diagram : Diagram ι) (arrow : Arrow ι) : Option (Link diagram) :=
  if h : arrow.source ∈ diagram.ids ∧ arrow.target ∈ diagram.ids then some ⟨arrow, h.1, h.2⟩
  else none

/-- The links of a diagram. -/
def links (diagram : Diagram ι) : List (Link diagram) :=
  diagram.arrows.filterMap diagram.link?

/-- The links into a box. -/
def incoming (diagram : Diagram ι) (id : ι) : List (Link diagram) :=
  diagram.links.filter fun link => link.target = id

/-- The links out of a box. -/
def outgoing (diagram : Diagram ι) (id : ι) : List (Link diagram) :=
  diagram.links.filter fun link => link.source = id

/-- The boxes in front of one, once for each link. -/
def predecessors (diagram : Diagram ι) (id : ι) : List diagram.KnownId :=
  (diagram.incoming id).map Link.start

end Flowchart.Diagram

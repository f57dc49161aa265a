import Flowchart.Layout.Boxes
import Mathlib.Data.List.Basic
import Mathlib.Data.Nat.Find

/-!
# Nested blocks

The blocks of a layout come one after the other, each before those inside it. They are `Nested` if a
block lists what the blocks inside it list and no node is listed by two blocks of the same level. Of
two blocks with a common node the first one then lists all nodes of the other one, and the block
right around the other one does not come before the first: so the blocks that list a node lie one
inside the other, and the last of them is its home.

Two nodes that are not listed by the same blocks are told apart by a block, `Nested.divides`: it
lists one of them, and the other is listed by another block of the same level, or its home is the
block right around.
-/

namespace Flowchart.BoxState

variable {α : Type}

/-- Blocks of the kind that a diagram has: each one comes after the block around it, which lists all
its members, and blocks of the same level share no member. -/
structure Nested (blocks : List (PlacedBlock α)) : Prop where
  once : ∀ b ∈ blocks, b.members.Nodup
  around : ∀ (i : Nat) b p, blocks[i]? = some b → b.parent = some p →
    p < i ∧ ∃ a, blocks[p]? = some a ∧ b.members ⊆ a.members
  apart : blocks.Pairwise fun a b => a.parent = b.parent → ∀ id ∈ a.members, id ∉ b.members

/-- The innermost block that lists a node, by its id. This is the last one that does, since a block
comes before those inside it. -/
def home? (blocks : List (PlacedBlock α)) (id : String) : Option String :=
  (blocks.reverse.find? fun b => b.members.contains id).map PlacedBlock.id

/-- The two nodes are listed by the same blocks. -/
def SameHome (blocks : List (PlacedBlock α)) (x y : String) : Prop :=
  ∀ b ∈ blocks, x ∈ b.members ↔ y ∈ b.members

/-- The block at position `i` tells two nodes apart: it lists the first one and not the second, and
this one is listed by another block of its level or belongs right to the block around. -/
def Divides (blocks : List (PlacedBlock α)) (i : Nat) (x y : String) : Prop :=
  ∃ b, blocks[i]? = some b ∧ x ∈ b.members ∧ y ∉ b.members ∧
    ((∃ (j : Nat) (c : PlacedBlock α), j ≠ i ∧ blocks[j]? = some c ∧ c.parent = b.parent ∧
      y ∈ c.members) ∨ home? blocks y = levelOf blocks b)

variable {blocks : List (PlacedBlock α)} {a b c : PlacedBlock α} {i j p : Nat} {x y : String}

/-! ## The home of a node -/

theorem home?_eq_none (h : ∀ b ∈ blocks, x ∉ b.members) : home? blocks x = none := by
  rw [home?, Option.map_eq_none_iff, List.find?_eq_none]
  intro b hb
  simpa using h b (List.mem_reverse.mp hb)

/-- The home of a node is the last block that lists it. -/
theorem home?_eq_some (hb : blocks[i]? = some b) (hx : x ∈ b.members)
    (hlast : ∀ (j : Nat) c, i < j → blocks[j]? = some c → x ∉ c.members) :
    home? blocks x = some b.id := by
  obtain ⟨hi, hget⟩ := List.getElem?_eq_some_iff.mp hb
  have hsplit : blocks.reverse =
      (blocks.drop (i + 1)).reverse ++ b :: (blocks.take i).reverse := by
    conv_lhs => rw [← List.take_append_drop i blocks, List.drop_eq_getElem_cons hi, hget]
    simp
  have hfind : (blocks.reverse.find? fun b => b.members.contains x) = some b := by
    refine List.find?_eq_some_iff_append.mpr ⟨by simpa using hx, _, _, hsplit, fun c hc => ?_⟩
    obtain ⟨k, hk⟩ := List.getElem?_of_mem (List.mem_reverse.mp hc)
    rw [List.getElem?_drop] at hk
    simpa using hlast _ c (by omega) hk
  rw [home?, hfind, Option.map_some]

/-! ## Blocks with a common node -/

namespace Nested

/-- Two blocks of the same level share no member. -/
theorem not_mem (h : Nested blocks) (hij : i ≠ j) (ha : blocks[i]? = some a)
    (hb : blocks[j]? = some b) (hparent : a.parent = b.parent) (hx : x ∈ a.members) :
    x ∉ b.members := by
  obtain ⟨hi, rfl⟩ := List.getElem?_eq_some_iff.mp ha
  obtain ⟨hj, rfl⟩ := List.getElem?_eq_some_iff.mp hb
  rcases Nat.lt_or_gt_of_ne hij with hlt | hgt
  · exact List.pairwise_iff_getElem.mp h.apart i j hi hj hlt hparent x hx
  · exact fun hx' => List.pairwise_iff_getElem.mp h.apart j i hj hi hgt hparent.symm x hx' hx

/-- Of two blocks with a common node, the second one has a block around it, and that does not come
before the first. The proof is by induction on both positions, for otherwise the blocks around would
be an exception at smaller ones. -/
theorem exists_parent (h : Nested blocks) (ha : blocks[i]? = some a) (hb : blocks[j]? = some b)
    (hij : i < j) (hxa : x ∈ a.members) (hxb : x ∈ b.members) : ∃ p, b.parent = some p ∧ i ≤ p := by
  -- by induction on both positions: otherwise the blocks around would be a smaller exception
  induction hn : i + j using Nat.strongRecOn generalizing i j a b with
  | _ n ih =>
    subst hn
    cases hpb : b.parent with
    | none =>
      cases hpa : a.parent with
      | none =>
        exact absurd hxb (h.not_mem (Nat.ne_of_lt hij) ha hb (hpa.trans hpb.symm) hxa)
      | some p =>
        obtain ⟨hp, c, hc, hsub⟩ := h.around i a p ha hpa
        obtain ⟨q, hq, -⟩ := ih (p + j) (by omega) hc hb (by omega) (hsub hxa) hxb rfl
        exact absurd (hpb.symm.trans hq) nofun
    | some q =>
      refine ⟨q, rfl, ?_⟩
      by_contra hlt
      obtain ⟨hq, c, hc, hsub⟩ := h.around j b q hb hpb
      obtain ⟨p, hpa, hqp⟩ := ih (q + i) (by omega) hc ha (by omega) (hsub hxb) hxa rfl
      obtain ⟨hp, c', hc', hsub'⟩ := h.around i a p ha hpa
      rcases Nat.eq_or_lt_of_le hqp with rfl | hqp
      · exact h.not_mem (Nat.ne_of_lt hij) ha hb (hpa.trans hpb.symm) hxa hxb
      · obtain ⟨q', hq', hle⟩ := ih (p + j) (by omega) hc' hb (by omega) (hsub' hxa) hxb rfl
        obtain rfl := Option.some.inj (hpb.symm.trans hq')
        omega

/-- Of two blocks with a common node, the first one lists all members of the other one. -/
theorem subset (h : Nested blocks) (ha : blocks[i]? = some a) (hb : blocks[j]? = some b)
    (hij : i < j) (hxa : x ∈ a.members) (hxb : x ∈ b.members) : b.members ⊆ a.members := by
  induction j using Nat.strongRecOn generalizing b with
  | _ j ih =>
    obtain ⟨p, hp, hip⟩ := h.exists_parent ha hb hij hxa hxb
    obtain ⟨hpj, c, hc, hsub⟩ := h.around j b p hb hp
    rcases Nat.eq_or_lt_of_le hip with rfl | hlt
    · obtain rfl := Option.some.inj (ha.symm.trans hc)
      exact hsub
    · exact List.Subset.trans hsub (ih p hpj hc hlt (hsub hxb))

end Nested

/-! ## Telling nodes apart -/

/-- The block at position `i` is the first one that lists one of two nodes: it lists `x` and not
`y`, and the blocks before it list both or neither. -/
structure FirstApart (blocks : List (PlacedBlock α)) (i : Nat) (b : PlacedBlock α)
    (x y : String) : Prop where
  entry : blocks[i]? = some b
  lists : x ∈ b.members
  omits : y ∉ b.members
  before : ∀ (k : Nat) c, k < i → blocks[k]? = some c → (x ∈ c.members ↔ y ∈ c.members)

namespace FirstApart

variable (hb : FirstApart blocks i b x y) (h : Nested blocks)
include hb h

/-- A block with both nodes is around the first one that lists only `x`, for one that came later
would lie inside it. -/
theorem exists_parent {k : Nat} (hc : blocks[k]? = some c) (hx : x ∈ c.members)
    (hy : y ∈ c.members) : ∃ q, b.parent = some q ∧ k ≤ q := by
  rcases Nat.lt_trichotomy k i with hlt | rfl | hgt
  · exact h.exists_parent hc hb.entry hlt hx hb.lists
  · obtain rfl := Option.some.inj (hb.entry.symm.trans hc)
    exact absurd hy hb.omits
  · exact absurd (h.subset hb.entry hc hgt hb.lists hx hy) hb.omits

/-- The block right around comes before, so it lists both nodes. -/
theorem parent_lists {q : Nat} (hq : b.parent = some q) :
    q < i ∧ ∃ a, blocks[q]? = some a ∧ x ∈ a.members ∧ y ∈ a.members := by
  obtain ⟨hlt, a, ha, hsub⟩ := h.around i b q hb.entry hq
  exact ⟨hlt, a, ha, hsub hb.lists, (hb.before q a hlt ha).mp (hsub hb.lists)⟩

/-- The first block that lists only `y` comes later. It stands on the same level, for the block
around either of the two lists both nodes and so is around the other one as well. -/
theorem parent_eq (hc : blocks[j]? = some c) (hy : y ∈ c.members) (hx : x ∉ c.members)
    (hleast : ∀ k < j, ∀ a, blocks[k]? = some a → y ∈ a.members → x ∈ a.members) :
    i < j ∧ c.parent = b.parent := by
  have hij : i < j := by
    rcases Nat.lt_trichotomy j i with hlt | rfl | hgt
    · exact absurd ((hb.before j c hlt hc).mpr hy) hx
    · obtain rfl := Option.some.inj (hb.entry.symm.trans hc)
      exact absurd hb.lists hx
    · exact hgt
  have hup : ∀ p, b.parent = some p → ∃ q, c.parent = some q ∧ p ≤ q := by
    intro p hp
    obtain ⟨hpi, a, ha, -, hya⟩ := hb.parent_lists h hp
    exact h.exists_parent ha hc (Nat.lt_trans hpi hij) hya hy
  refine ⟨hij, ?_⟩
  cases hq : c.parent with
  | none =>
    cases hp : b.parent with
    | none => rfl
    | some p =>
      obtain ⟨q, hq', -⟩ := hup p hp
      exact absurd (hq.symm.trans hq') nofun
  | some q =>
    obtain ⟨hqj, a, ha, hsub⟩ := h.around j c q hc hq
    obtain ⟨p, hp, hqp⟩ := hb.exists_parent h ha (hleast q hqj a ha (hsub hy)) (hsub hy)
    obtain ⟨q', hq', hpq⟩ := hup p hp
    obtain rfl := Option.some.inj (hq.symm.trans hq')
    rw [hp, Nat.le_antisymm hpq hqp]

/-- If no block lists only `y`, the home of `y` is the block right around. -/
theorem home?_eq (hall : ∀ (k : Nat) c, blocks[k]? = some c → y ∈ c.members → x ∈ c.members) :
    home? blocks y = levelOf blocks b := by
  cases hp : b.parent with
  | none =>
    rw [levelOf, hp]
    refine home?_eq_none fun c hc hy => ?_
    obtain ⟨k, hk⟩ := List.getElem?_of_mem hc
    obtain ⟨q, hq, -⟩ := hb.exists_parent h hk (hall k c hk hy) hy
    exact absurd (hp.symm.trans hq) nofun
  | some p =>
    obtain ⟨-, a, ha, -, hya⟩ := hb.parent_lists h hp
    rw [levelOf, hp, Option.bind_some, ha, Option.map_some]
    refine home?_eq_some ha hya fun k c hk hc hy => ?_
    obtain ⟨q, hq, hkq⟩ := hb.exists_parent h hc (hall k c hc hy) hy
    obtain rfl := Option.some.inj (hp.symm.trans hq)
    omega

/-- The first block that lists one of two nodes and not the other tells them apart. -/
theorem divides : Divides blocks i x y := by
  refine ⟨b, hb.entry, hb.lists, hb.omits, ?_⟩
  by_cases hother : ∃ (j : Nat) (c : PlacedBlock α), blocks[j]? = some c ∧ y ∈ c.members ∧
      x ∉ c.members
  · classical
    obtain ⟨c, hc, hy, hx⟩ := Nat.find_spec hother
    obtain ⟨hij, hparent⟩ := hb.parent_eq h hc hy hx fun k hk a ha hya => by
      by_contra hxa
      exact Nat.find_min hother hk ⟨a, ha, hya, hxa⟩
    exact .inl ⟨_, c, Nat.ne_of_gt hij, hc, hparent, hy⟩
  · refine .inr (hb.home?_eq h fun k c hc hy => ?_)
    by_contra hx
    exact hother ⟨k, c, hc, hy, hx⟩

end FirstApart

namespace Nested

/-- Two nodes that are not listed by the same blocks are told apart by a block. -/
theorem divides (h : Nested blocks) (hxy : ¬ SameHome blocks x y) :
    ∃ i, Divides blocks i x y ∨ Divides blocks i y x := by
  have hone : ∃ (i : Nat) (b : PlacedBlock α), blocks[i]? = some b ∧
      ¬ (x ∈ b.members ↔ y ∈ b.members) := by
    simp only [SameHome, not_forall] at hxy
    obtain ⟨b, hb, hne⟩ := hxy
    obtain ⟨i, hi⟩ := List.getElem?_of_mem hb
    exact ⟨i, b, hi, hne⟩
  classical
  obtain ⟨b, hb, hne⟩ := Nat.find_spec hone
  have hfirst : ∀ (k : Nat) c, k < Nat.find hone → blocks[k]? = some c →
      (x ∈ c.members ↔ y ∈ c.members) := by
    intro k c hk hc
    by_contra hiff
    exact Nat.find_min hone hk ⟨c, hc, hiff⟩
  refine ⟨Nat.find hone, ?_⟩
  by_cases hx : x ∈ b.members
  · have hy : y ∉ b.members := fun hy => hne (iff_of_true hx hy)
    exact .inl (FirstApart.divides ⟨hb, hx, hy, hfirst⟩ h)
  · have hy : y ∈ b.members := by
      by_contra hy
      exact hne (iff_of_false hx hy)
    exact .inr (FirstApart.divides ⟨hb, hy, hx, fun k c hk hc => (hfirst k c hk hc).symm⟩ h)

end Nested

end Flowchart.BoxState

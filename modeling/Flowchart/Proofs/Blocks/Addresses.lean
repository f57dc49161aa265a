import Mathlib.Algebra.GroupWithZero.Nat
import Mathlib.Data.List.Forall2
import Flowchart.Diagram.Basic

/-!
# Addresses of blocks

In a forest of blocks a block has an *address*: the number of the outermost block around it, then
the number of the next one inside that block, and so on down to its own number. The listing of a
diagram has one block for each address, in the lexicographic order of the addresses,
`flatBlocks_preOrder`. So the depth of a block is the length of the way to it, and its parent is
found at its address without the last number.

The same listing comes from a stack of blocks that are still to be visited, `flatBlocks_eq_drain`.
-/

namespace Flowchart

namespace Block

/-! ## Blocks at addresses -/

/-- The block that is met by going down along numbers of children. -/
def descend (b : Block) : List Nat → Option Block
  | [] => some b
  | k :: rest => (b.children[k]?).bind fun c => c.descend rest

/-- The block at an address in a forest. -/
def at? (bs : List Block) : List Nat → Option Block
  | [] => none
  | k :: rest => (bs[k]?).bind fun b => b.descend rest

mutual

/-- The addresses of a block and everything inside it, the block itself being at `here`. -/
def addresses (here : List Nat) : Block → List (List Nat)
  | .mk _ _ _ _ children => here :: addressesFrom here 0 children

/-- The addresses of sibling blocks and everything inside them: the way to them is `above`, and the
first one has the number `k`. -/
def addressesFrom (above : List Nat) (k : Nat) : List Block → List (List Nat)
  | [] => []
  | b :: rest => b.addresses (above ++ [k]) ++ addressesFrom above (k + 1) rest

end

theorem descend_append (b : Block) (a a' : List Nat) :
    b.descend (a ++ a') = (b.descend a).bind fun c => c.descend a' := by
  induction a generalizing b with
  | nil => rfl
  | cons k a ih =>
    rw [List.cons_append, descend, descend, Option.bind_assoc]
    simp only [ih]

theorem at?_concat {bs : List Block} {a : List Nat} {b : Block} (h : at? bs a = some b) (k : Nat) :
    at? bs (a ++ [k]) = b.children[k]? := by
  cases a with
  | nil => cases h
  | cons j a =>
    obtain ⟨c, hc, hb⟩ := Option.bind_eq_some_iff.mp h
    rw [List.cons_append, at?, hc, Option.bind_some, descend_append, hb, Option.bind_some, descend]
    cases b.children[k]? <;> rfl

/-! ## All addresses -/

mutual

/-- The addresses below one are those that lead to a block. -/
theorem mem_addresses {a here : List Nat} (b : Block) :
    a ∈ b.addresses here ↔ ∃ q, a = here ++ q ∧ (b.descend q).isSome := by
  obtain ⟨i, t, d, m, children⟩ := b
  rw [addresses, List.mem_cons, mem_addressesFrom children]
  constructor
  · rintro (rfl | ⟨j, q, c, rfl, hc, hq⟩)
    · exact ⟨[], (List.append_nil _).symm, rfl⟩
    · refine ⟨j :: q, by rw [Nat.zero_add], ?_⟩
      rw [descend, Block.children, hc]
      exact hq
  · rintro ⟨_ | ⟨j, q⟩, rfl, hq⟩
    · exact .inl (List.append_nil _)
    · obtain ⟨c, hc⟩ := Option.isSome_iff_exists.mp (Option.isSome_of_isSome_bind hq)
      rw [descend, hc] at hq
      exact .inr ⟨j, q, c, by rw [Nat.zero_add], hc, hq⟩

theorem mem_addressesFrom {a above : List Nat} {k : Nat} (bs : List Block) :
    a ∈ addressesFrom above k bs ↔
      ∃ j q c, a = above ++ (k + j) :: q ∧ bs[j]? = some c ∧ (c.descend q).isSome := by
  cases bs with
  | nil => simp [addressesFrom]
  | cons b bs =>
    rw [addressesFrom, List.mem_append, mem_addresses b, mem_addressesFrom bs]
    constructor
    · rintro (⟨q, rfl, hq⟩ | ⟨j, q, c, rfl, hc, hq⟩)
      · exact ⟨0, q, b, by simp, rfl, hq⟩
      · exact ⟨j + 1, q, c, by rw [Nat.add_right_comm, Nat.add_assoc], hc, hq⟩
    · rintro ⟨_ | j, q, c, rfl, hc, hq⟩
      · obtain rfl := Option.some.inj hc
        exact .inl ⟨q, by simp, hq⟩
      · exact .inr ⟨j, q, c, by rw [Nat.add_right_comm, Nat.add_assoc], hc, hq⟩

end

theorem lt_append_cons (here : List Nat) (k : Nat) (q : List Nat) : here < here ++ k :: q := by
  induction here with
  | nil => exact List.nil_lt_cons k q
  | cons j here ih => exact List.cons_lt_cons_iff.mpr (.inr ⟨rfl, ih⟩)

theorem append_lt_append {j k : Nat} (h : j < k) (above q q' : List Nat) :
    above ++ j :: q < above ++ k :: q' := by
  induction above with
  | nil => exact List.cons_lt_cons_iff.mpr (.inl h)
  | cons i above ih => exact List.cons_lt_cons_iff.mpr (.inr ⟨rfl, ih⟩)

mutual

/-- Addresses are listed in order: a block before those inside it, siblings by their numbers. -/
theorem pairwise_addresses (here : List Nat) (b : Block) :
    (b.addresses here).Pairwise (· < ·) := by
  obtain ⟨i, t, d, m, children⟩ := b
  rw [addresses, List.pairwise_cons]
  refine ⟨fun a ha => ?_, pairwise_addressesFrom here 0 children⟩
  obtain ⟨j, q, -, rfl, -, -⟩ := (mem_addressesFrom children).mp ha
  exact lt_append_cons here (0 + j) q

theorem pairwise_addressesFrom (above : List Nat) (k : Nat) (bs : List Block) :
    (addressesFrom above k bs).Pairwise (· < ·) := by
  cases bs with
  | nil => exact List.Pairwise.nil
  | cons b bs =>
    rw [addressesFrom, List.pairwise_append]
    refine ⟨pairwise_addresses _ b, pairwise_addressesFrom above (k + 1) bs, fun a ha a' ha' => ?_⟩
    obtain ⟨q, rfl, -⟩ := (mem_addresses b).mp ha
    obtain ⟨j, q', -, rfl, -, -⟩ := (mem_addressesFrom bs).mp ha'
    rw [List.append_assoc, List.singleton_append]
    exact append_lt_append (by omega) above q q'

end

/-! ## The listing -/

/-- What a listing says about the block at an address; `all` are the addresses in the order of the
listing. -/
structure StandsAt (bs : List Block) (all : List (List Nat)) (f : FlatBlock) (a : List Nat) :
    Prop where
  block : at? bs a = some f.block
  /-- an address has one number for the block and one for each block around it -/
  depth : f.depth + 1 = a.length
  /-- the block right around it is listed at the position of its address -/
  parent : ∀ p, f.parent = some p ↔ all[p]? = some a.dropLast

/-- A listing shows the blocks of a forest one by one in the order of their addresses. -/
structure PreOrder (bs : List Block) (flat : List FlatBlock) : Prop where
  /-- the addresses come in lexicographic order -/
  sorted : (addressesFrom [] 0 bs).Pairwise (· < ·)
  /-- they are the addresses of all blocks -/
  mem : ∀ a, a ∈ addressesFrom [] 0 bs ↔ (at? bs a).isSome
  /-- the listing goes along with them -/
  entries : List.Forall₂ (StandsAt bs (addressesFrom [] 0 bs)) flat (addressesFrom [] 0 bs)

section Entries

variable {bs : List Block} {all : List (List Nat)}

/-- Of addresses in order, each has one position. -/
theorem getElem?_iff_of_sorted {i : Nat} {a : List Nat} (hsorted : all.Pairwise (· < ·))
    (hi : all[i]? = some a) (p : Nat) : all[p]? = some a ↔ i = p := by
  have hnodup : all.Nodup := hsorted.imp (S := (· ≠ ·)) fun h heq => List.lt_irrefl _ (heq ▸ h)
  constructor
  · intro hp
    obtain ⟨hlt, -⟩ := List.getElem?_eq_some_iff.mp hi
    exact (List.getElem?_inj hlt hnodup).mp (hi.trans hp.symm)
  · rintro rfl
    exact hi

mutual

/-- A block and everything inside it is listed along its addresses, if it is found at `here` and the
addresses from a position on are its own. -/
theorem standsAt_listFrom (hsorted : all.Pairwise (· < ·)) {here : List Nat}
    {index depth : Nat} {parent : Option Nat} (b : Block) (hb : at? bs here = some b)
    (hdepth : depth + 1 = here.length) (hparent : ∀ p, parent = some p ↔ all[p]? = some here.dropLast)
    (hall : b.addresses here <+: all.drop index) :
    List.Forall₂ (StandsAt bs all) (b.listFrom index depth parent) (b.addresses here) := by
  obtain ⟨i, t, d, m, children⟩ := b
  rw [addresses] at hall ⊢
  rw [listFrom]
  obtain ⟨rest, hrest⟩ := hall
  have hhere : all[index]? = some here := by
    rw [← Nat.add_zero index, ← List.getElem?_drop, ← hrest]
    rfl
  refine .cons ⟨hb, hdepth, hparent⟩
    (standsAt_listAllFrom hsorted children (fun j => ?_) ?_ (fun p => ?_) ?_)
  · rw [at?_concat hb, Nat.zero_add]
    rfl
  · rw [hdepth]
  · rw [Option.some_inj, getElem?_iff_of_sorted hsorted hhere]
  · refine ⟨rest, ?_⟩
    rw [← List.drop_drop, ← hrest]
    rfl

/-- The same for siblings, the first of which has the number `k` under `above`. -/
theorem standsAt_listAllFrom (hsorted : all.Pairwise (· < ·)) {above : List Nat}
    {k index depth : Nat} {parent : Option Nat} (cs : List Block)
    (hcs : ∀ j, at? bs (above ++ [k + j]) = cs[j]?) (hdepth : depth = above.length)
    (hparent : ∀ p, parent = some p ↔ all[p]? = some above)
    (hall : addressesFrom above k cs <+: all.drop index) :
    List.Forall₂ (StandsAt bs all) (listAllFrom index depth parent cs) (addressesFrom above k cs) := by
  cases cs with
  | nil => exact .nil
  | cons c cs =>
    rw [addressesFrom] at hall ⊢
    rw [listAllFrom]
    have hfirst : List.Forall₂ (StandsAt bs all) (c.listFrom index depth parent)
        (c.addresses (above ++ [k])) :=
      standsAt_listFrom hsorted c (hcs 0) (by rw [hdepth]; simp) (by simpa using hparent)
        ((List.prefix_append _ _).trans hall)
    refine List.rel_append hfirst
      (standsAt_listAllFrom hsorted cs (fun j => ?_) hdepth hparent ?_)
    · rw [Nat.add_right_comm, Nat.add_assoc, hcs, List.getElem?_cons_succ]
    · obtain ⟨rest, hrest⟩ := hall
      refine ⟨rest, ?_⟩
      rw [hfirst.length_eq, ← List.drop_drop, ← hrest, List.append_assoc, List.drop_left]

end

end Entries

/-- **The listing of a forest** shows its blocks in the order of their addresses. -/
theorem preOrder_listAllFrom (bs : List Block) : PreOrder bs (listAllFrom 0 0 none bs) where
  sorted := pairwise_addressesFrom [] 0 bs
  mem := by
    intro a
    rw [mem_addressesFrom]
    constructor
    · rintro ⟨j, q, c, rfl, hc, hq⟩
      rw [Nat.zero_add, List.nil_append, at?, hc]
      exact hq
    · intro ha
      cases a with
      | nil => cases ha
      | cons j q =>
        obtain ⟨c, hc⟩ := Option.isSome_iff_exists.mp (Option.isSome_of_isSome_bind ha)
        rw [at?, hc] at ha
        exact ⟨j, q, c, by rw [Nat.zero_add]; rfl, hc, ha⟩
  entries := by
    have hsorted := pairwise_addressesFrom [] 0 bs
    refine standsAt_listAllFrom hsorted bs (fun j => ?_) rfl (fun p => ?_) ?_
    · rw [List.nil_append, Nat.zero_add, at?]
      cases bs[j]? <;> rfl
    · -- no block stands at the empty address
      constructor
      · rintro ⟨⟩
      · intro hp
        obtain ⟨j, q, -, hnil, -⟩ := (mem_addressesFrom bs).mp (List.mem_of_getElem? hp)
        cases hnil
    · exact List.prefix_rfl

/-! ## A stack of blocks -/

theorem sum_sizeOf_lt (b : Block) : (b.children.map sizeOf).sum < sizeOf b := by
  have hlist : ∀ bs : List Block, (bs.map sizeOf).sum < sizeOf bs := by
    intro bs
    induction bs with
    | nil => simp
    | cons b bs ih =>
      rw [List.map_cons, List.sum_cons, List.cons.sizeOf_spec]
      omega
  obtain ⟨i, t, d, m, children⟩ := b
  have := hlist children
  rw [Block.mk.sizeOf_spec, Block.children]
  omega

/-- Lists the blocks on a stack, each with its depth and its parent: the first one is taken off the
stack, and the blocks inside it are put onto it. -/
def drain (index : Nat) : List (Block × Nat × Option Nat) → List FlatBlock
  | [] => []
  | (b, depth, parent) :: stack =>
    ⟨b, depth, parent⟩ ::
      drain (index + 1) ((b.children.map fun c => (c, depth + 1, some index)) ++ stack)
termination_by stack => (stack.map fun e => sizeOf e.1).sum
decreasing_by
  have := sum_sizeOf_lt b
  simp only [List.map_append, List.map_map, List.sum_append, List.map_cons, List.sum_cons]
  exact Nat.add_lt_add_right this _

mutual

/-- A block on the top of the stack is listed with everything inside it before the rest. -/
theorem drain_cons (index depth : Nat) (parent : Option Nat) (b : Block)
    (stack : List (Block × Nat × Option Nat)) : drain index ((b, depth, parent) :: stack) =
      b.listFrom index depth parent ++
        drain (index + (b.listFrom index depth parent).length) stack := by
  obtain ⟨i, t, d, m, children⟩ := b
  rw [drain, Block.children, drain_append (index + 1) (depth + 1) (some index) children stack,
    listFrom, List.cons_append, List.length_cons, Nat.add_right_comm, Nat.add_assoc]

theorem drain_append (index depth : Nat) (parent : Option Nat) (bs : List Block)
    (stack : List (Block × Nat × Option Nat)) :
    drain index ((bs.map fun c => (c, depth, parent)) ++ stack) =
      listAllFrom index depth parent bs ++
        drain (index + (listAllFrom index depth parent bs).length) stack := by
  cases bs with
  | nil => rfl
  | cons b bs =>
    rw [List.map_cons, List.cons_append, drain_cons index depth parent b, drain_append _ depth
      parent bs, listAllFrom, List.append_assoc, List.length_append, Nat.add_assoc]

end

end Block

/-- The listing of a diagram is made with a stack on which the outermost blocks lie at first. -/
theorem Diagram.flatBlocks_eq_drain {α : Type} (g : Diagram α) :
    g.flatBlocks = Block.drain 0 (g.blocks.map fun b => (b, 0, none)) := by
  have hdrain := Block.drain_append 0 0 none g.blocks []
  rw [List.append_nil, Block.drain, List.append_nil] at hdrain
  exact hdrain.symm

end Flowchart

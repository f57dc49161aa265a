import Mathlib.Algebra.Group.Nat.Defs
import Mathlib.Data.List.Perm.Subperm
import Mathlib.Data.List.Nodup
import Flowchart.Proofs.Blocks.LinkEnds
import Flowchart.Proofs.Blocks.Opening

/-!
# Ids of blocks that are given none

A block whose header gives no id gets the first id of a row that no block and no node has so far.
The search for it ends, since there are more ids in the row than blocks and nodes. So all ids from
the row differ from each other and from what came before them.

They are settled in one pass, and what comes later is not looked at: a later block may be given the
same id, and a later mention of the id makes a node of that name, which then stands for the block.
An id from the row is the only one of its kind exactly if the text does not give it afterwards,
`parseDocument_autoIds`; and a text may do so, `parseDocument_autoIds_reused`.
-/

namespace Flowchart

/-- The ids that a statement gives: to the nodes that it mentions, or to the block that it opens. -/
def Statement.givenIds : Statement → List String
  | .openBlock header => header.id.toList
  | s => s.mentions.map NodeRef.id

/-- The ids of the nodes that statements mention. -/
def nodeIds (statements : List (Nat × Statement)) : List String :=
  statements.flatMap fun s => s.2.mentions.map NodeRef.id

namespace Builder

/-- A number is the first one whose id is not in use. -/
structure IsFirstFree (used : List String) (n : Nat) : Prop where
  free : autoId n ∉ used
  first : ∀ m < n, autoId m ∈ used

variable {b : Builder} {id : String}

/-! ## The search -/

theorem autoId_injective : Function.Injective autoId := by
  intro m n h
  have hdigits : Nat.toDigits 10 m = Nat.toDigits 10 n := by
    simpa [autoId] using congrArg String.toList h
  simpa using congrArg (Nat.ofDigitChars 10 · 0) hdigits

/-- The ids that blocks and nodes have so far. -/
def usedIds (b : Builder) : List String :=
  b.drafts.map Draft.id ++ b.diagram.nodes.map Node.id

theorem isTaken_iff : b.isTaken id = true ↔ id ∈ b.usedIds := by
  simp [isTaken, usedIds, Diagram.hasNode]

/-- The search passes only over ids in use. -/
theorem le_freeAutoId (b : Builder) (fuel n : Nat) : n ≤ b.freeAutoId fuel n ∧
    ∀ m, n ≤ m → m < b.freeAutoId fuel n → autoId m ∈ b.usedIds := by
  induction fuel generalizing n with
  | zero => exact ⟨Nat.le_refl n, fun m hm hlt => absurd hlt (Nat.not_lt.mpr hm)⟩
  | succ fuel ih =>
    rw [freeAutoId]
    split
    next htaken =>
      obtain ⟨hle, hpassed⟩ := ih (n + 1)
      refine ⟨Nat.le_of_succ_le hle, fun m hm hlt => ?_⟩
      rcases Nat.eq_or_lt_of_le hm with rfl | hm
      · exact isTaken_iff.mp htaken
      · exact hpassed m hm hlt
    next => exact ⟨Nat.le_refl n, fun m hm hlt => absurd hlt (Nat.not_lt.mpr hm)⟩

/-- If the search ends at an id in use, all ids that it could reach are in use. -/
theorem mem_usedIds_of_freeAutoId {fuel n : Nat} (h : autoId (b.freeAutoId fuel n) ∈ b.usedIds) :
    ∀ i ≤ fuel, autoId (n + i) ∈ b.usedIds := by
  induction fuel generalizing n with
  | zero =>
    intro i hi
    obtain rfl := Nat.le_zero.mp hi
    exact h
  | succ fuel ih =>
    rw [freeAutoId] at h
    split at h
    next htaken =>
      intro i hi
      cases i with
      | zero => exact isTaken_iff.mp htaken
      | succ i =>
        rw [Nat.add_comm i, ← Nat.add_assoc]
        exact ih h i (Nat.le_of_succ_le_succ hi)
    next hfree => exact absurd (isTaken_iff.mpr h) hfree

/-- **The search ends** at an id that is not in use: there are not enough blocks and nodes to use
all the ids it can reach. -/
theorem autoId_freeAutoId_not_mem {fuel : Nat} (hfuel : b.usedIds.length ≤ fuel) (n : Nat) :
    autoId (b.freeAutoId fuel n) ∉ b.usedIds := by
  intro h
  have hsubset : (List.range (fuel + 1)).map (fun i => autoId (n + i)) ⊆ b.usedIds := by
    intro id hid
    obtain ⟨i, hi, rfl⟩ := List.mem_map.mp hid
    exact mem_usedIds_of_freeAutoId h i (Nat.le_of_lt_succ (List.mem_range.mp hi))
  have hnodup : ((List.range (fuel + 1)).map fun i => autoId (n + i)).Nodup :=
    List.nodup_range.map (autoId_injective.comp (add_right_injective n))
  have hlength := (List.subperm_of_subset hnodup hsubset).length_le
  rw [List.length_map, List.length_range] at hlength
  omega

/-! ## One statement -/

/-- The number whose id the next block without one gets. -/
def nextNumber (b : Builder) : Nat :=
  b.freeAutoId (b.drafts.length + b.diagram.nodes.length) b.autoCount

/-- All ids of the row before the next one to be tried are in use. -/
def Numbered (b : Builder) : Prop := ∀ m < b.autoCount, autoId m ∈ b.usedIds

theorem Numbered.isFirstFree (hb : b.Numbered) : IsFirstFree b.usedIds b.nextNumber := by
  refine ⟨autoId_freeAutoId_not_mem (by simp [usedIds]) _, fun m hm => ?_⟩
  by_cases hlt : m < b.autoCount
  · exact hb m hlt
  · exact (b.le_freeAutoId _ _).2 m (Nat.le_of_not_lt hlt) hm

/-- The ids of the blocks that a statement opens. -/
def openedIds (b : Builder) : Statement → List String
  | .openBlock header => [header.id.getD (autoId b.nextNumber)]
  | _ => []

theorem draftIds_run (b : Builder) (line : Nat) (s : Statement) :
    (b.run line s).drafts.map Draft.id = b.drafts.map Draft.id ++ b.openedIds s := by
  have hother (hs : s.opens = false) :
      (b.run line s).drafts.map Draft.id = b.drafts.map Draft.id ++ [] := by
    have hheadings := congrArg (List.map Prod.fst) (b.headings_run line hs).1
    rw [List.map_map, List.map_map] at hheadings
    rw [List.append_nil]
    exact hheadings
  cases s with
  | openBlock header =>
    rw [run, openBlock, openedIds]
    cases header.id with
    | none => exact map_pushDraft (fun _ _ => rfl) b.drafts b.openBlocks _
    | some id => exact map_pushDraft (fun _ _ => rfl) b.drafts b.openBlocks _
  | _ => exact hother rfl

theorem mem_nodeIds_run (b : Builder) (line : Nat) (s : Statement) :
    id ∈ (b.run line s).diagram.nodes.map Node.id ↔
      id ∈ b.diagram.nodes.map Node.id ∨ id ∈ s.mentions.map NodeRef.id := by
  by_cases hchain : ∃ c, s = .chain c
  · obtain ⟨c, rfl⟩ := hchain
    have hnodes := (foldl_mention c.references b).2 id
    rw [Diagram.hasNode_iff, Diagram.hasNode_iff, ← List.mem_map, ← List.mem_map] at hnodes
    exact hnodes.trans (or_congr_right List.mem_map.symm)
  · have hmentions : s.mentions = [] := by
      cases s with
      | chain c => exact absurd ⟨c, rfl⟩ hchain
      | _ => rfl
    rw [(b.run_of_not_chain line fun c hc => hchain ⟨c, hc⟩).1, hmentions]
    simp

theorem autoCount_foldl_mention (refs : List NodeRef) (b : Builder) :
    (refs.foldl mention b).autoCount = b.autoCount := by
  refine List.foldlRecOn (motive := fun b' : Builder => b'.autoCount = b.autoCount) refs mention rfl
    fun b' hb' r _ => ?_
  rw [← hb', mention, register]
  split <;> rfl

/-- Only a block without an id moves on in the row. -/
theorem autoCount_run (b : Builder) (line : Nat) (s : Statement) :
    (b.run line s).autoCount = b.autoCount ∨
      (b.run line s).autoCount = b.nextNumber + 1 ∧ autoId b.nextNumber ∈ b.openedIds s := by
  cases s with
  | openBlock header =>
    rw [run, openBlock, openedIds]
    cases header.id with
    | none => exact .inr ⟨rfl, List.mem_singleton_self _⟩
    | some id => exact .inl rfl
  | closeBlock =>
    rw [run, closeBlock]
    split <;> exact .inl rfl
  | direction d =>
    rw [run, setDirection]
    split <;> exact .inl rfl
  | defineClasses style => cases style <;> exact .inl rfl
  | styleNodes style => cases style <;> exact .inl rfl
  | styleLinks style =>
    cases style with
    | none => exact .inl rfl
    | some style => obtain ⟨selection | indices, style⟩ := style <;> exact .inl rfl
  | chain c => exact .inl (autoCount_foldl_mention c.references b)
  | assignClasses pairs => exact .inl rfl
  | ignored => exact .inl rfl
  | rejected reason => exact .inl rfl

theorem usedIds_subset_run (b : Builder) (line : Nat) (s : Statement) :
    b.usedIds ⊆ (b.run line s).usedIds := by
  intro id hid
  rw [usedIds, List.mem_append] at hid ⊢
  rw [draftIds_run, mem_nodeIds_run, List.mem_append]
  exact hid.imp .inl .inl

theorem Numbered.run (hb : b.Numbered) (line : Nat) (s : Statement) : (b.run line s).Numbered := by
  intro m hm
  rcases b.autoCount_run line s with hcount | ⟨hcount, hopened⟩
  · exact b.usedIds_subset_run line s (hb m (hcount ▸ hm))
  · rcases Nat.eq_or_lt_of_le (Nat.le_of_lt_succ (hcount ▸ hm)) with rfl | hlt
    · rw [usedIds, draftIds_run]
      exact List.mem_append_left _ (List.mem_append_right _ hopened)
    · exact b.usedIds_subset_run line s (hb.isFirstFree.first m hlt)

/-! ## A run of statements -/

variable {l before after : List (Nat × Statement)}

theorem Numbered.runAll (hb : b.Numbered) (l : List (Nat × Statement)) : (b.runAll l).Numbered :=
  List.foldlRecOn l _ hb fun _ h s _ => h.run s.1 s.2

theorem draftIds_prefix_runAll (b : Builder) (l : List (Nat × Statement)) :
    b.drafts.map Draft.id <+: (b.runAll l).drafts.map Draft.id := by
  refine List.foldlRecOn (motive := fun b' : Builder =>
    b.drafts.map Draft.id <+: b'.drafts.map Draft.id) l _ List.prefix_rfl fun b' hb' s _ => ?_
  rw [draftIds_run]
  exact hb'.trans (List.prefix_append _ _)

theorem mem_nodeIds_runAll (b : Builder) (l : List (Nat × Statement)) :
    id ∈ (b.runAll l).diagram.nodes.map Node.id ↔
      id ∈ b.diagram.nodes.map Node.id ∨ id ∈ nodeIds l := by
  induction l generalizing b with
  | nil => simp [nodeIds]
  | cons s l ih =>
    rw [runAll_cons, ih, mem_nodeIds_run, or_assoc, nodeIds, nodeIds, List.flatMap_cons,
      List.mem_append]

/-- What a run makes of a statement that opens a block: the block is the next one. -/
theorem draftIds_runAll_split (b : Builder) (line : Nat) (header : BlockHeader) :
    ∃ later, (b.runAll (before ++ (line, .openBlock header) :: after)).drafts.map Draft.id =
      (b.runAll before).drafts.map Draft.id ++
        header.id.getD (autoId (b.runAll before).nextNumber) :: later := by
  obtain ⟨later, hlater⟩ :=
    draftIds_prefix_runAll ((b.runAll before).run line (.openBlock header)) after
  refine ⟨later, ?_⟩
  rw [runAll_append, runAll_cons, ← hlater, draftIds_run, openedIds, List.append_assoc]
  rfl

end Builder

/-! ## Documents -/

/-- The ids of all blocks, as listed. -/
def Document.blockIds (doc : Document) : List String :=
  doc.diagram.flatBlocks.map fun f => f.block.id

/-- The blocks of a document are those that statements open, with the ids given there; a block that
is given none has the first id of the row that no block and no node had before. -/
structure Document.NamesBlocks (doc : Document) (statements : List (Nat × Statement)) : Prop where
  length_eq : doc.blockIds.length = openings (statements.map Prod.snd)
  given : ∀ before line header after, statements = before ++ (line, .openBlock header) :: after →
    ∀ id, header.id = some id → doc.blockIds[openings (before.map Prod.snd)]? = some id
  first_free : ∀ before line header after,
    statements = before ++ (line, .openBlock header) :: after → header.id = none →
    ∃ n, doc.blockIds[openings (before.map Prod.snd)]? = some (Builder.autoId n) ∧
      Builder.IsFirstFree
        (doc.blockIds.take (openings (before.map Prod.snd)) ++ nodeIds before) n

section Splits

variable {statements before after before' after' : List (Nat × Statement)}

/-- Every number of a block belongs to a statement that opens one. -/
theorem exists_opening {j : Nat} (hj : j < openings (statements.map Prod.snd)) :
    ∃ before line header after, statements = before ++ (line, .openBlock header) :: after ∧
      openings (before.map Prod.snd) = j := by
  induction statements generalizing j with
  | nil => cases hj
  | cons s statements ih =>
    obtain ⟨line, s⟩ := s
    rw [List.map_cons, openings_cons] at hj
    by_cases hs : s.opens = true ∧ j = 0
    · obtain ⟨hopens, rfl⟩ := hs
      cases s with
      | openBlock header => exact ⟨[], line, header, statements, rfl, rfl⟩
      | _ => cases hopens
    · obtain ⟨i, hi, hij⟩ : ∃ i < openings (statements.map Prod.snd),
          (i + if s.opens then 1 else 0) = j := by
        split at hj
        next hopens =>
          have hpos : j ≠ 0 := fun h => hs ⟨hopens, h⟩
          exact ⟨j - 1, by omega, by rw [if_pos hopens]; omega⟩
        next hopens => exact ⟨j, hj, by rw [if_neg hopens]; rfl⟩
      obtain ⟨before, line', header, after, rfl, hbefore⟩ := ih hi
      refine ⟨(line, s) :: before, line', header, after, rfl, ?_⟩
      rw [List.map_cons, openings_cons, hbefore, hij]

/-- A statement before which more blocks are opened comes later. -/
theorem mem_of_openings_lt {s s' : Nat × Statement}
    (h : before ++ s :: after = before' ++ s' :: after')
    (hlt : openings (before.map Prod.snd) < openings (before'.map Prod.snd)) : s' ∈ after := by
  rcases List.append_eq_append_iff.mp h with ⟨between, rfl, hrest⟩ | ⟨between, rfl, -⟩
  · cases between with
    | nil => simp at hlt
    | cons t between =>
      rw [(List.cons.inj hrest).2]
      exact List.mem_append_right _ List.mem_cons_self
  · rw [List.map_append, openings, openings, List.countP_append] at hlt
    omega

end Splits

namespace Document.NamesBlocks

variable {doc : Document} {before after : List (Nat × Statement)} {line : Nat}
  {header : BlockHeader} {id : String}

/-- No earlier block has an id from the row, and no node that was mentioned before. -/
theorem not_mem_before {statements : List (Nat × Statement)} (h : doc.NamesBlocks statements)
    (hsplit : statements = before ++ (line, .openBlock header) :: after)
    (hheader : header.id = none) (hid : doc.blockIds[openings (before.map Prod.snd)]? = some id) :
    id ∉ doc.blockIds.take (openings (before.map Prod.snd)) ∧ id ∉ nodeIds before := by
  obtain ⟨n, hn, hfree⟩ := h.first_free before line header after hsplit hheader
  obtain rfl := Option.some.inj (hn.symm.trans hid)
  exact ⟨fun hmem => hfree.free (List.mem_append_left _ hmem),
    fun hmem => hfree.free (List.mem_append_right _ hmem)⟩

/-- A later block has an id from the row only if it is given this id. An id that no block was given
would have been passed over if it were in use already. -/
theorem mem_givenIds_of_later
    (h : doc.NamesBlocks (before ++ (line, .openBlock header) :: after)) {j : Nat}
    (hid : doc.blockIds[openings (before.map Prod.snd)]? = some id)
    (hj : doc.blockIds[j]? = some id) (hlater : openings (before.map Prod.snd) < j) :
    id ∈ after.flatMap fun s => s.2.givenIds := by
  have hlt : j < openings ((before ++ (line, .openBlock header) :: after).map Prod.snd) :=
    h.length_eq ▸ (List.getElem?_eq_some_iff.mp hj).1
  obtain ⟨before', line', header', after', hsplit, rfl⟩ := exists_opening hlt
  have hmem := mem_of_openings_lt hsplit hlater
  cases hheader' : header'.id with
  | some id' =>
    obtain rfl : id' = id := Option.some.inj ((h.given _ _ _ _ hsplit _ hheader').symm.trans hj)
    refine List.mem_flatMap.mpr ⟨_, hmem, ?_⟩
    rw [Statement.givenIds, hheader']
    exact Option.mem_toList.mpr rfl
  | none =>
    refine absurd ?_ (h.not_mem_before hsplit hheader' hj).1
    refine List.mem_of_getElem? (i := openings (before.map Prod.snd)) ?_
    rw [List.getElem?_take_of_lt hlater, hid]

/-- No other block and no node has an id from the row exactly if it is not given afterwards. -/
theorem alone_iff (h : doc.NamesBlocks (before ++ (line, .openBlock header) :: after))
    (hheader : header.id = none) (hid : doc.blockIds[openings (before.map Prod.snd)]? = some id) :
    (∀ j, doc.blockIds[j]? = some id → j = openings (before.map Prod.snd)) ∧
        id ∉ nodeIds (before ++ (line, .openBlock header) :: after) ↔
      id ∉ after.flatMap fun s => s.2.givenIds := by
  obtain ⟨hblocks, hnodes⟩ := h.not_mem_before rfl hheader hid
  have hnodeIds : nodeIds (before ++ (line, .openBlock header) :: after) =
      nodeIds before ++ nodeIds after := by
    rw [nodeIds, List.flatMap_append, List.flatMap_cons]
    rfl
  rw [hnodeIds, List.mem_append]
  constructor
  · rintro ⟨halone, hnot⟩ hgiven
    obtain ⟨⟨line', s⟩, hs, hmem⟩ := List.mem_flatMap.mp hgiven
    cases s with
    | openBlock header' =>
      obtain ⟨between, after', rfl⟩ := List.append_of_mem hs
      have hsplit : before ++ (line, .openBlock header) ::
            (between ++ (line', .openBlock header') :: after') =
          (before ++ (line, .openBlock header) :: between) ++
            (line', .openBlock header') :: after' := by simp
      have hlater := halone _ (h.given _ _ _ _ hsplit id (Option.mem_toList.mp hmem))
      rw [List.map_append, openings, openings, List.countP_append, List.map_cons,
        List.countP_cons_of_pos rfl] at hlater
      omega
    | _ => exact hnot (.inr (List.mem_flatMap.mpr ⟨_, hs, hmem⟩))
  · intro hnot
    refine ⟨fun j hj => ?_, ?_⟩
    · rcases Nat.lt_trichotomy j (openings (before.map Prod.snd)) with hlt | heq | hlater
      · refine absurd (List.mem_of_getElem? (i := j) ?_) hblocks
        rw [List.getElem?_take_of_lt hlt, hj]
      · exact heq
      · exact absurd (h.mem_givenIds_of_later hid hj hlater) hnot
    · rintro (hmem | hmem)
      · exact hnodes hmem
      · obtain ⟨⟨line', s⟩, hs, hmem⟩ := List.mem_flatMap.mp hmem
        refine hnot (List.mem_flatMap.mpr ⟨_, hs, ?_⟩)
        cases s with
        | openBlock header' => cases hmem
        | _ => exact hmem

end Document.NamesBlocks

/-- **The names of blocks** after a run that starts without blocks and nodes. -/
theorem Builder.namesBlocks_runAll {start : Builder} (hstart : start.Orderly)
    (hdrafts : start.drafts = []) (hopen : start.openBlocks = [])
    (hnodes : start.diagram.nodes = []) (hcount : start.autoCount = 0)
    {statements : List (Nat × Statement)} {doc : Document}
    (hdoc : doc.diagram = (start.runAll statements).finish) : doc.NamesBlocks statements := by
  have hnumbered : start.Numbered := fun m hm => absurd hm (hcount ▸ Nat.not_lt_zero m)
  have hlength (l : List (Nat × Statement)) :
      ((start.runAll l).drafts.map Draft.id).length = openings (l.map Prod.snd) := by
    rw [List.length_map, (follows_runAll hstart hdrafts hopen l).2.length_eq]
  have hids : doc.blockIds = (start.runAll statements).drafts.map Draft.id := by
    rw [Document.blockIds, hdoc]
    exact (follows_runAll hstart hdrafts hopen statements).1.ids_finish
  have hentry (before : List (Nat × Statement)) (header : BlockHeader)
      (later : List String) : ((start.runAll before).drafts.map Draft.id ++
        header.id.getD (autoId (start.runAll before).nextNumber) ::
          later)[openings (before.map Prod.snd)]? =
      some (header.id.getD (autoId (start.runAll before).nextNumber)) := by
    rw [List.getElem?_append_right (hlength before).le, hlength before, Nat.sub_self]
    rfl
  constructor
  case length_eq => rw [hids, hlength]
  case given =>
    rintro before line header after rfl id hid
    obtain ⟨later, hlater⟩ := start.draftIds_runAll_split line header
    rw [hids, hlater, hentry, hid]
    rfl
  case first_free =>
    rintro before line header after rfl hheader
    obtain ⟨later, hlater⟩ := start.draftIds_runAll_split line header
    refine ⟨(start.runAll before).nextNumber, ?_, ?_⟩
    · rw [hids, hlater, hentry, hheader]
      rfl
    · have hused (id : String) : id ∈ (start.runAll before).usedIds ↔
          id ∈ (start.runAll before).drafts.map Draft.id ++ nodeIds before := by
        rw [usedIds, List.mem_append, List.mem_append, mem_nodeIds_runAll, hnodes]
        simp
      rw [hids, hlater, ← hlength before, List.take_left]
      obtain ⟨hnot, hfirst⟩ := (hnumbered.runAll before).isFirstFree
      exact ⟨fun h => hnot ((hused _).mpr h), fun m hm => (hused _).mp (hfirst m hm)⟩

/-- A block that the statements of a text open between some of them, without an id. -/
structure Document.NamesFromRow (doc : Document) (text : String)
    (before after : List (Nat × Statement)) (n : Nat) : Prop where
  named : doc.blockIds[openings (before.map Prod.snd)]? = some (Builder.autoId n)
  /-- no block and no node had the id before, and they had all that come before it in the row -/
  first_free : Builder.IsFirstFree
    (doc.blockIds.take (openings (before.map Prod.snd)) ++ nodeIds before) n
  /-- no other block has the id, and no node that the text mentions, exactly if no later statement
  gives it to a block or a node -/
  alone_iff :
    (∀ j, doc.blockIds[j]? = some (Builder.autoId n) → j = openings (before.map Prod.snd)) ∧
        (∀ r ∈ mentionsIn text, r.id ≠ Builder.autoId n) ↔
      Builder.autoId n ∉ after.flatMap fun s => s.2.givenIds

/-- **Ids of blocks without one.** A block whose header gives no id has the first id of the row that
no block and no node had before it, and the id is its own unless the text gives it afterwards. -/
theorem parseDocument_autoIds {text : String} {doc : Document} (h : parseDocument text = .ok doc)
    {before after : List (Nat × Statement)} {line : Nat} {header : BlockHeader}
    (hsplit : statementsOf text = before ++ (line, .openBlock header) :: after)
    (hheader : header.id = none) : ∃ n, doc.NamesFromRow text before after n := by
  obtain ⟨b, hbuild, hdoc⟩ := exists_buildText h
  obtain ⟨d, rfl⟩ := buildText_runAll hbuild
  have hnames : doc.NamesBlocks (statementsOf text) :=
    Builder.namesBlocks_runAll (.of_empty rfl rfl rfl rfl) rfl rfl rfl rfl hdoc
  obtain ⟨n, hn, hfree⟩ := hnames.first_free before line header after hsplit hheader
  have hmentions : (∀ r ∈ mentionsIn text, r.id ≠ Builder.autoId n) ↔
      Builder.autoId n ∉ nodeIds (statementsOf text) := by
    have hnodeIds : nodeIds (statementsOf text) = (mentionsIn text).map NodeRef.id := by
      rw [nodeIds, mentionsIn, List.map_flatMap]
    simp [hnodeIds]
  rw [hsplit] at hnames hmentions
  exact ⟨n, hn, hfree, (and_congr_right' hmentions).trans (hnames.alone_iff hheader hn)⟩

/-- A node has the first id of the row, and two blocks are given none. -/
def nodeFromRow : String :=
  "graph TD\nsubgraph_0[x]\nsubgraph\na\nend\nsubgraph \"y\"\nb\nend"

theorem parseDocument_autoIds_second : ∃ doc, parseDocument nodeFromRow = .ok doc ∧
    doc.blockIds = ["subgraph_1", "subgraph_2"] ∧ ∃ before after,
      statementsOf nodeFromRow = before ++ (3, .openBlock {}) :: after ∧
      ∃ n, doc.NamesFromRow nodeFromRow before after n := by
  have hread : (parseDocument nodeFromRow).toOption.map Document.blockIds =
      some ["subgraph_1", "subgraph_2"] := by decide +kernel
  obtain ⟨doc, h, hdoc⟩ := exists_ok_of_map hread
  have hsplit : statementsOf nodeFromRow = (statementsOf nodeFromRow).take 1 ++
      (3, .openBlock {}) :: (statementsOf nodeFromRow).drop 2 := by rfl
  exact ⟨doc, h, hdoc, _, _, hsplit, parseDocument_autoIds h hsplit rfl⟩

/-- A block that is given no id, and then one that is given the first id of the row. -/
def givenAfterwards : String := "graph TD\nsubgraph\na\nend\nsubgraph subgraph_0\nb\nend"

/-- A block that is given no id, and then a link of the node with the first id of the row. -/
def mentionedAfterwards : String := "graph TD\nsubgraph\na\nend\nsubgraph_0 --> b"

/-- **Not every id from the row stays the only one.** A later block may be given the same id, and a
later link from a node with this id becomes one from a node of the block. -/
theorem parseDocument_autoIds_reused :
    (∃ doc, parseDocument givenAfterwards = .ok doc ∧
      (∃ after, statementsOf givenAfterwards = (2, .openBlock {}) :: after) ∧
      doc.blockIds = ["subgraph_0", "subgraph_0"] ∧
      doc.diagram.nodes.map (fun n => (n.id, n.parent)) =
        [("a", some "subgraph_0"), ("b", some "subgraph_0")]) ∧
    ∃ doc, parseDocument mentionedAfterwards = .ok doc ∧
      (∃ after, statementsOf mentionedAfterwards = (2, .openBlock {}) :: after) ∧
      doc.blockIds = ["subgraph_0"] ∧
      (mentionsIn mentionedAfterwards).map NodeRef.id = ["a", "subgraph_0", "b"] ∧
      doc.diagram.edges.map (fun e => (e.source, e.target)) = [("a", "b")] := by
  have hgiven : (parseDocument givenAfterwards).toOption.map (fun doc =>
      (doc.blockIds, doc.diagram.nodes.map fun n => (n.id, n.parent))) =
      some (["subgraph_0", "subgraph_0"],
        [("a", some "subgraph_0"), ("b", some "subgraph_0")]) := by decide +kernel
  have hmentioned : (parseDocument mentionedAfterwards).toOption.map (fun doc =>
      (doc.blockIds, doc.diagram.edges.map fun e => (e.source, e.target))) =
      some (["subgraph_0"], [("a", "b")]) := by decide +kernel
  constructor
  · obtain ⟨doc, h, hdoc⟩ := exists_ok_of_map hgiven
    obtain ⟨hblocks, hnodes⟩ := Prod.mk.inj hdoc
    exact ⟨doc, h, ⟨(statementsOf givenAfterwards).tail, rfl⟩, hblocks, hnodes⟩
  · obtain ⟨doc, h, hdoc⟩ := exists_ok_of_map hmentioned
    obtain ⟨hblocks, hedges⟩ := Prod.mk.inj hdoc
    exact ⟨doc, h, ⟨(statementsOf mentionedAfterwards).tail, rfl⟩, hblocks, by decide +kernel,
      hedges⟩

end Flowchart

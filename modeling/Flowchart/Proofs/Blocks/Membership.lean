import Flowchart.Proofs.Blocks.Slots
import Flowchart.Proofs.Document.Statements

/-!
# Membership while a diagram is built

Every mention of a node enters it into all open drafts at once, so a draft has the members of the
drafts inside it. The owner of a node is one of the drafts it was mentioned in, and a node has an
owner as soon as it is a member of some draft. `Orderly` collects this; every statement keeps it,
`Orderly.run`, and so every builder that reads a text has it.
-/

namespace Flowchart

/-! ## Members -/

/-- The members of a draft. -/
def membersOf (drafts : List Draft) (i : Nat) : List String :=
  ((drafts[i]?).map Draft.members).getD []

/-- What the nesting and the members of drafts depend on. -/
def Draft.content (d : Draft) : Option Nat × List Nat × List String :=
  (d.parent, d.children, d.members)

section Members

variable {drafts drafts' : List Draft} {i : Nat} {m : String}

/-- A node is a member of a draft if there is such a draft and it lists the node. -/
theorem mem_membersOf : m ∈ membersOf drafts i ↔ ∃ d, drafts[i]? = some d ∧ m ∈ d.members := by
  rw [membersOf]
  cases drafts[i]? <;> simp

/-- The members can be read off the contents of the drafts, so drafts with the same contents have
the same members. -/
theorem membersOf_congr (h : drafts'.map Draft.content = drafts.map Draft.content) :
    membersOf drafts' = membersOf drafts := by
  have hmembers : drafts'.map Draft.members = drafts.map Draft.members := by
    simpa [Draft.content, Function.comp_def] using congrArg (List.map (·.2.2)) h
  funext i
  rw [membersOf, membersOf, ← List.getElem?_map, hmembers, List.getElem?_map]

theorem map_parent_congr (h : drafts'.map Draft.content = drafts.map Draft.content) :
    drafts'.map Draft.parent = drafts.map Draft.parent := by
  simpa [Draft.content, Function.comp_def] using congrArg (List.map Prod.fst) h

theorem map_children_congr (h : drafts'.map Draft.content = drafts.map Draft.content) :
    drafts'.map Draft.children = drafts.map Draft.children := by
  simpa [Draft.content, Function.comp_def] using congrArg (List.map (·.2.1)) h

/-- A new draft without members changes nothing about the members of any draft. -/
theorem membersOf_concat {d : Draft} (hd : d.members = []) :
    membersOf (drafts ++ [d]) i = membersOf drafts i := by
  rw [membersOf, membersOf, List.getElem?_append]
  split
  next => rfl
  next h =>
    rw [List.getElem?_eq_none (Nat.le_of_not_lt h), List.getElem?_singleton]
    split
    · rw [Option.map_some, hd]
      rfl
    · rfl

/-- Entering a node into open drafts: each of them has it afterwards, and the others are as before.
Entering it again into one that has it changes nothing, so it does not matter whether a draft is
listed twice. -/
theorem getElem?_addMember (opened : List Nat) (id : String) (drafts : List Draft) (i : Nat) :
    (opened.foldl (fun ds i => ds.modify i (Builder.addMember id)) drafts)[i]? =
      drafts[i]?.map fun d => if i ∈ opened then Builder.addMember id d else d := by
  have hagain : ∀ d, Builder.addMember id (Builder.addMember id d) = Builder.addMember id d := by
    intro d
    unfold Builder.addMember
    split <;> simp_all
  induction opened generalizing drafts with
  | nil => simp
  | cons o rest ih =>
    rw [List.foldl_cons, ih, List.getElem?_modify]
    by_cases hio : o = i
    · subst hio
      cases drafts[o]? <;> simp [hagain]
    · simp [hio, Ne.symm hio]

/-- The members of a draft after a node was entered are those before and this node. -/
theorem mem_addMember {id : String} {d : Draft} :
    m ∈ (Builder.addMember id d).members ↔ m ∈ d.members ∨ m = id := by
  unfold Builder.addMember
  split
  next h =>
    have hid : id ∈ d.members := by simpa using h
    exact ⟨.inl, fun h => h.elim (fun h => h) fun h => h ▸ hid⟩
  next => simp

/-- A node is entered only if it is not a member yet, so no draft lists a node twice. -/
theorem nodup_addMember {id : String} {d : Draft} (h : d.members.Nodup) :
    (Builder.addMember id d).members.Nodup := by
  unfold Builder.addMember
  split
  next => exact h
  next hnot =>
    refine List.nodup_append.mpr ⟨h, by simp, fun a ha b hb => ?_⟩
    obtain rfl := List.mem_singleton.mp hb
    rintro rfl
    exact hnot (by simpa using ha)

/-- Members are entered into open drafts and nowhere else. -/
theorem mem_membersOf_addMember {opened : List Nat} {id : String}
    (hopened : ∀ i ∈ opened, i < drafts.length) :
    m ∈ membersOf (opened.foldl (fun ds i => ds.modify i (Builder.addMember id)) drafts) i ↔
      m ∈ membersOf drafts i ∨ i ∈ opened ∧ m = id := by
  rw [membersOf, membersOf, getElem?_addMember]
  by_cases hi : i ∈ opened
  · rw [List.getElem?_eq_getElem (hopened i hi)]
    simp [hi, mem_addMember]
  · cases drafts[i]? <;> simp [hi]

/-- A draft that lists its members once still does. -/
theorem nodup_membersOf_addMember (opened : List Nat) (id : String)
    (h : (membersOf drafts i).Nodup) :
    (membersOf (opened.foldl (fun ds i => ds.modify i (Builder.addMember id)) drafts) i).Nodup := by
  rw [membersOf] at h ⊢
  rw [getElem?_addMember]
  cases hd : drafts[i]? with
  | none => exact List.nodup_nil
  | some d =>
    rw [hd] at h
    simp only [Option.map_some, Option.getD_some] at h ⊢
    split
    · exact nodup_addMember h
    · exact h

/-- Whatever of a draft does not depend on its members is the same after entering one. -/
theorem map_addMember {γ : Type} {f : Draft → γ} {id : String}
    (hf : ∀ d, f (Builder.addMember id d) = f d) (opened : List Nat) (drafts : List Draft) :
    (opened.foldl (fun ds i => ds.modify i (Builder.addMember id)) drafts).map f =
      drafts.map f := by
  refine List.ext_getElem? fun i => ?_
  rw [List.getElem?_map, List.getElem?_map, getElem?_addMember]
  cases drafts[i]? with
  | none => rfl
  | some d =>
    simp only [Option.map_some, Option.some_inj]
    split
    · exact hf d
    · rfl

theorem map_children_addMember (opened : List Nat) (id : String) (drafts : List Draft) :
    (opened.foldl (fun ds i => ds.modify i (Builder.addMember id)) drafts).map Draft.children =
      drafts.map Draft.children := by
  refine map_addMember (fun d => ?_) opened drafts
  rw [Builder.addMember]
  split <;> rfl

/-- Entering a node leaves the parents of all drafts as they are. -/
theorem map_parent_addMember (opened : List Nat) (id : String) (drafts : List Draft) :
    (opened.foldl (fun ds i => ds.modify i (Builder.addMember id)) drafts).map Draft.parent =
      drafts.map Draft.parent := by
  refine map_addMember (fun d => ?_) opened drafts
  rw [Builder.addMember]
  split <;> rfl

end Members

/-! ## Nodes -/

namespace Diagram

variable {α : Type} {g : Diagram α} {id id' : String}

/-- A diagram has a node if one of its nodes has that id. -/
theorem hasNode_iff : g.hasNode id = true ↔ ∃ n ∈ g.nodes, n.id = id := by
  simp [hasNode]

/-- Changing a node that keeps its id changes nothing about which nodes there are. -/
theorem hasNode_updateNode {f : Node α → Node α} (hf : ∀ n, (f n).id = n.id) :
    (g.updateNode id f).hasNode id' = g.hasNode id' := by
  simp only [hasNode, updateNode, List.any_map]
  congr 1
  funext n
  simp only [Function.comp_apply]
  split
  · rw [hf]
  · rfl

/-- While a text is read no node has a parent: parents are given at its end, and no change to a node
gives it one. -/
theorem parent_updateNode {f : Node α → Node α} (hf : ∀ n, (f n).parent = n.parent)
    (hg : ∀ n ∈ g.nodes, n.parent = none) : ∀ n ∈ (g.updateNode id f).nodes, n.parent = none := by
  intro n hn
  obtain ⟨n', hn', rfl⟩ := List.mem_map.mp hn
  split
  · exact (hf n').trans (hg n' hn')
  · exact hg n' hn'

/-- Updates that keep ids and parents change neither which nodes there are nor that none has a
parent. -/
theorem foldl_updateNode_spec {β : Type} {f : β → Node α → Node α}
    (hf : ∀ r n, (f r n).id = n.id ∧ (f r n).parent = n.parent) (key : β → String) (l : List β)
    (g : Diagram α) :
    (∀ id, (l.foldl (fun g r => g.updateNode (key r) (f r)) g).hasNode id = g.hasNode id) ∧
      ((∀ n ∈ g.nodes, n.parent = none) →
        ∀ n ∈ (l.foldl (fun g r => g.updateNode (key r) (f r)) g).nodes, n.parent = none) := by
  induction l generalizing g with
  | nil => exact ⟨fun _ => rfl, fun h => h⟩
  | cons r l ih =>
    obtain ⟨hid, hparent⟩ := ih (g.updateNode (key r) (f r))
    exact ⟨fun id => (hid id).trans (hasNode_updateNode fun n => (hf r n).1),
      fun hg => hparent (parent_updateNode (fun n => (hf r n).2) hg)⟩

variable {label : Option String} {shape : Option Shape}

theorem id_fillLabel (n : Node α) : (n.fillLabel label shape).id = n.id := by
  unfold Node.fillLabel
  split <;> rfl

theorem parent_fillLabel (n : Node α) : (n.fillLabel label shape).parent = n.parent := by
  unfold Node.fillLabel
  split <;> rfl

/-- A node that is mentioned again has its label and shape filled in, and otherwise a new node is
put at the end. -/
theorem nodes_mention (g : Diagram α) (id : String) (label : Option String) (shape : Option Shape) :
    (g.mention id label shape).nodes =
      if g.hasNode id then (g.updateNode id (·.fillLabel label shape)).nodes
      else g.nodes ++ [{ id := id, label := label, shape := shape.getD .rectangle }] := rfl

/-- A node that was mentioned is there, and so are those that were there before. -/
theorem hasNode_mention : (g.mention id label shape).hasNode id' = true ↔
    g.hasNode id' = true ∨ id' = id := by
  rw [hasNode, nodes_mention]
  split
  next h =>
    rw [← hasNode, hasNode_updateNode id_fillLabel]
    exact ⟨.inl, fun h' => h'.elim (fun h' => h') fun h' => h' ▸ h⟩
  next =>
    simp only [hasNode, List.any_append, List.any_cons, List.any_nil, Bool.or_false,
      Bool.or_eq_true, beq_iff_eq]
    exact or_congr_right eq_comm

/-- Neither a new node nor one that is mentioned again gets a parent. -/
theorem parent_mention (hg : ∀ n ∈ g.nodes, n.parent = none) :
    ∀ n ∈ (g.mention id label shape).nodes, n.parent = none := by
  rw [nodes_mention]
  split
  next => exact parent_updateNode parent_fillLabel hg
  next =>
    intro n hn
    rcases List.mem_append.mp hn with hn | hn
    · exact hg n hn
    · obtain rfl := List.mem_singleton.mp hn
      rfl

end Diagram

/-! ## The invariant -/

namespace Builder

/-- The drafts nest, members and owners agree, and what is a member of a draft is a node. -/
structure Orderly (b : Builder) : Prop where
  nested : Nested b.drafts
  linked : Linked b.drafts
  opened : OpenIn b.drafts b.openBlocks
  once : ∀ i, (membersOf b.drafts i).Nodup
  /-- a draft has the members of the drafts inside it -/
  inherited : ∀ {i p m}, parentOf b.drafts i = some p → m ∈ membersOf b.drafts i →
    m ∈ membersOf b.drafts p
  /-- a node was mentioned in the draft it belongs to -/
  owner_lists : ∀ {m o}, b.owners.lookup m = some o → m ∈ membersOf b.drafts o
  owned : ∀ {m i}, m ∈ membersOf b.drafts i → (b.owners.lookup m).isSome
  known : ∀ {m i}, m ∈ membersOf b.drafts i → b.diagram.hasNode m = true
  /-- parents are assigned at the end only -/
  unassigned : ∀ n ∈ b.diagram.nodes, n.parent = none

namespace Orderly

variable {b b' : Builder}

/-- Order depends on the contents of the drafts, on the open drafts and the owners, and on which
nodes are known. What changes nothing else about a builder keeps it. -/
theorem congr (hb : b.Orderly) (hdrafts : b'.drafts.map Draft.content = b.drafts.map Draft.content)
    (hopen : b'.openBlocks = b.openBlocks) (howners : b'.owners = b.owners)
    (hknown : ∀ id, b.diagram.hasNode id = true → b'.diagram.hasNode id = true)
    (hparents : ∀ n ∈ b'.diagram.nodes, n.parent = none) : b'.Orderly := by
  have hparent := map_parent_congr hdrafts
  have hmembers := membersOf_congr hdrafts
  refine ⟨hb.nested.congr hparent, hb.linked.congr hparent (map_children_congr hdrafts),
    hopen ▸ hb.opened.congr hparent, ?_, ?_, ?_, ?_, ?_, hparents⟩
  · exact hmembers ▸ hb.once
  · rw [hmembers, parentOf_congr hparent]
    exact hb.inherited
  · rw [hmembers, howners]
    exact hb.owner_lists
  · rw [hmembers, howners]
    exact hb.owned
  · rw [hmembers]
    exact fun hm => hknown _ (hb.known hm)

/-- A builder without nodes and drafts is in order, since there is nothing that could be out of
order. -/
theorem of_empty (hdrafts : b.drafts = []) (hopen : b.openBlocks = []) (howners : b.owners = [])
    (hnodes : b.diagram.nodes = []) : b.Orderly := by
  have hmembers : ∀ i, membersOf b.drafts i = [] := fun i => by rw [hdrafts]; rfl
  refine ⟨hdrafts ▸ nested_nil, hdrafts ▸ linked_nil, hopen ▸ openIn_nil _, fun i => ?_,
    fun _ hm => ?_, fun h => ?_, fun hm => ?_, fun hm => ?_, fun n hn => ?_⟩
  · rw [hmembers]
    exact List.nodup_nil
  · simp [hmembers] at hm
  · simp [howners] at h
  · simp [hmembers] at hm
  · simp [hmembers] at hm
  · simp [hnodes] at hn

/-! ### Blocks -/

/-- A block that is opened comes after all others, with the innermost open one as its parent, and
has no members yet. -/
theorem openBlock (hb : b.Orderly) (header : BlockHeader) : (b.openBlock header).Orderly := by
  obtain ⟨d, hparent, hmembers, hchildren, hdrafts, hopen, howners, hdiagram⟩ : ∃ d : Draft,
      d.parent = b.openBlocks.head? ∧ d.members = [] ∧ d.children = [] ∧
      (b.openBlock header).drafts = pushDraft b.drafts b.openBlocks d ∧
      (b.openBlock header).openBlocks = b.drafts.length :: b.openBlocks ∧
      (b.openBlock header).owners = b.owners ∧ (b.openBlock header).diagram = b.diagram := by
    unfold Builder.openBlock
    cases header.id with
    | some id => exact ⟨_, rfl, rfl, rfl, rfl, rfl, rfl, rfl⟩
    | none => exact ⟨_, rfl, rfl, rfl, rfl, rfl, rfl, rfl⟩
  have hparents : (b.openBlock header).drafts.map Draft.parent =
      (b.drafts ++ [d]).map Draft.parent := by
    rw [hdrafts, map_pushDraft fun _ _ => rfl, List.map_append, List.map_singleton]
  have hmembers : ∀ i, membersOf (b.openBlock header).drafts i = membersOf b.drafts i := fun i => by
    have hnew : membersOf (b.openBlock header).drafts i = membersOf (b.drafts ++ [d]) i := by
      rw [membersOf, membersOf, ← List.getElem?_map, ← List.getElem?_map, hdrafts,
        map_pushDraft fun _ _ => rfl, List.map_append, List.map_singleton]
    rw [hnew, membersOf_concat hmembers]
  refine ⟨?_, ?_, ?_, fun i => ?_, fun {i p m} hp hm => ?_, fun {m o} h => ?_, fun {m i} hm => ?_,
    fun {m i} hm => ?_, ?_⟩
  · exact (hb.opened.nested_concat hb.nested hparent).congr hparents
  · rw [hdrafts]
    exact hb.linked.pushDraft hb.nested hb.opened hparent hchildren
  · rw [hopen]
    exact (hb.opened.concat hb.nested hparent).congr hparents
  · rw [hmembers]
    exact hb.once i
  · rw [hmembers] at hm ⊢
    rw [parentOf_congr hparents, parentOf_concat] at hp
    obtain ⟨d, hd, -⟩ := mem_membersOf.mp hm
    have hlt := (List.getElem?_eq_some_iff.mp hd).1
    rw [if_neg (by omega)] at hp
    exact hb.inherited hp hm
  · rw [hmembers]
    exact hb.owner_lists (howners ▸ h)
  · rw [hmembers] at hm
    exact howners ▸ hb.owned hm
  · rw [hmembers] at hm
    exact hdiagram ▸ hb.known hm
  · exact hdiagram ▸ hb.unassigned

/-- Closing a block leaves the blocks around it open, and changes no draft. -/
theorem closeBlock (hb : b.Orderly) (line : Nat) : (b.closeBlock line).Orderly := by
  unfold Builder.closeBlock
  split
  next rest h =>
    have hopened := hb.opened.tail hb.nested
    rw [h] at hopened
    exact ⟨hb.nested, hb.linked, hopened, hb.once, hb.inherited, hb.owner_lists, hb.owned, hb.known,
      hb.unassigned⟩
  next h => exact hb.congr rfl rfl rfl (fun _ h => h) hb.unassigned

theorem setDirection (hb : b.Orderly) (d : Direction) : (b.setDirection d).Orderly := by
  unfold Builder.setDirection
  split
  next i rest h =>
    refine hb.congr (List.ext_getElem? fun j => ?_) rfl rfl (fun _ h => h) hb.unassigned
    rw [List.getElem?_map, List.getElem?_map, List.getElem?_modify]
    split <;> cases b.drafts[j]? <;> rfl
  next => exact hb.congr rfl rfl rfl (fun _ h => h) hb.unassigned

/-! ### Mentions -/

/-- A node that was mentioned in the open blocks belongs to the innermost one or to the block it
belonged to before. -/
theorem sharpenOwner_cases (drafts : List Draft) (owner : Option Nat) (innermost : Nat) :
    sharpenOwner drafts owner innermost = innermost ∨
      owner = some (sharpenOwner drafts owner innermost) := by
  unfold sharpenOwner
  cases owner with
  | none => exact .inl rfl
  | some o =>
    dsimp only
    split
    · exact .inl rfl
    · exact .inr rfl

/-- A known node that is entered into the open drafts becomes a member of all of them at once, and
is owned by one that has it. -/
theorem register (hb : b.Orderly) {id : String} (hid : b.diagram.hasNode id = true) :
    (b.register id).Orderly := by
  unfold Builder.register
  split
  next => exact hb
  next innermost rest hopen =>
    have hlt : ∀ i ∈ b.openBlocks, i < b.drafts.length := fun i => hb.opened.lt_length hb.nested
    have hmem : ∀ {m i}, m ∈ membersOf (b.openBlocks.foldl
        (fun ds i => ds.modify i (addMember id)) b.drafts) i ↔
        m ∈ membersOf b.drafts i ∨ i ∈ b.openBlocks ∧ m = id := mem_membersOf_addMember hlt
    have hparent := map_parent_addMember b.openBlocks id b.drafts
    have hinner : innermost ∈ b.openBlocks := hopen ▸ List.mem_cons_self
    constructor
    case nested => exact hb.nested.congr hparent
    case linked =>
      exact hb.linked.congr hparent (map_children_addMember b.openBlocks id b.drafts)
    case opened => exact hb.opened.congr hparent
    case once => exact fun i => nodup_membersOf_addMember _ id (hb.once i)
    case inherited =>
      intro i p m hp hm
      dsimp only at hp hm ⊢
      rw [parentOf_congr hparent] at hp
      rw [hmem] at hm ⊢
      rcases hm with hm | ⟨hi, rfl⟩
      · exact .inl (hb.inherited hp hm)
      · exact .inr ⟨hb.opened.parent_mem hb.nested hi hp, rfl⟩
    case owner_lists =>
      intro m o ho
      dsimp only at ho ⊢
      rw [lookup_setKey] at ho
      rw [hmem]
      split at ho
      next h =>
        obtain rfl := beq_iff_eq.mp h
        obtain rfl := Option.some.inj ho
        rcases sharpenOwner_cases b.drafts (b.owners.lookup m) innermost with h | h
        · exact .inr ⟨by rw [h]; exact hinner, rfl⟩
        · exact .inl (hb.owner_lists h)
      next => exact .inl (hb.owner_lists ho)
    case owned =>
      intro m i hm
      dsimp only at hm ⊢
      rw [lookup_setKey]
      split
      next => rfl
      next h =>
        rcases hmem.mp hm with hm | ⟨-, rfl⟩
        · exact hb.owned hm
        · simp at h
    case known =>
      intro m i hm
      rcases hmem.mp hm with hm | ⟨-, rfl⟩
      · exact hb.known hm
      · exact hid
    case unassigned => exact hb.unassigned

/-- Mentioning a node makes it known and enters it into the open drafts. -/
theorem mention (hb : b.Orderly) (r : NodeRef) : (b.mention r).Orderly := by
  have hentered : Orderly { b with
      diagram := b.diagram.mention r.id r.label r.shape
      classRequests := b.classRequests ++ r.classes.map fun c => (r.id, c) } :=
    hb.congr rfl rfl rfl (fun id hid => Diagram.hasNode_mention.mpr (.inl hid))
      (Diagram.parent_mention hb.unassigned)
  exact hentered.register (Diagram.hasNode_mention.mpr (.inr rfl))

/-- The nodes of a chain are mentioned one after the other, and the connections touch no draft. -/
theorem addChain (hb : b.Orderly) (c : Chain) : (b.addChain c).Orderly := by
  have hfold : ∀ (refs : List NodeRef) (b : Builder), b.Orderly →
      (refs.foldl Builder.mention b).Orderly := by
    intro refs
    induction refs with
    | nil => exact fun b hb => hb
    | cons r refs ih => exact fun b hb => ih _ (hb.mention r)
  have hmentioned := hfold c.references b hb
  exact hmentioned.congr rfl rfl rfl (fun _ h => h) hmentioned.unassigned

/-! ### Texts -/

/-- **Every statement keeps drafts, members and owners in order.** -/
theorem run (hb : b.Orderly) (line : Nat) (s : Statement) : (b.run line s).Orderly := by
  have hother : ∀ b' : Builder, b'.drafts = b.drafts → b'.openBlocks = b.openBlocks →
      b'.owners = b.owners → b'.diagram.nodes = b.diagram.nodes → b'.Orderly := by
    intro b' hdrafts hopen howners hnodes
    refine hb.congr (congrArg _ hdrafts) hopen howners (fun id hid => ?_) (hnodes ▸ hb.unassigned)
    rw [Diagram.hasNode, hnodes]
    exact hid
  cases s with
  | closeBlock => exact hb.closeBlock line
  | openBlock header => exact hb.openBlock header
  | direction d => exact hb.setDirection d
  | chain c => exact hb.addChain c
  | defineClasses s => cases s <;> exact hother _ rfl rfl rfl rfl
  | assignClasses pairs => exact hother _ rfl rfl rfl rfl
  | styleNodes s => cases s <;> exact hother _ rfl rfl rfl rfl
  | styleLinks s =>
    cases s with
    | none => exact hb
    | some s => obtain ⟨selection | indices, style⟩ := s <;> exact hother _ rfl rfl rfl rfl
  | ignored => exact hb
  | rejected reason => exact hother _ rfl rfl rfl rfl

end Orderly

/-- The builder of every text that is read is orderly, by induction on the statements. -/
theorem orderly_buildText {text : String} {b : Builder} (h : buildText text = .ok b) : b.Orderly :=
  buildText_induct (fun _ => .of_empty rfl rfl rfl rfl) (fun _ line s hb => hb.run line s) h

/-- Every diagram that is read comes from an orderly builder. -/
theorem exists_orderly {text : String} {doc : Document} (h : parseDocument text = .ok doc) :
    ∃ b : Builder, b.Orderly ∧ doc.diagram = b.finish := by
  obtain ⟨b, hbuild, hdoc⟩ := exists_buildText h
  exact ⟨b, orderly_buildText hbuild, hdoc⟩

end Builder

end Flowchart

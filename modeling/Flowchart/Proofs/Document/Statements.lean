import Flowchart.Grammar.Document

/-!
# The statements of a text

Reading a text carries its statements out one after the other: `statementsOf` lists them, and
`buildText_runAll` says that the builder of the text is what they make of an empty one. What a
diagram says about its nodes comes from two kinds of statements, those that mention nodes and those
that give classes to nodes.
-/

namespace Flowchart

/-! ## What one statement says -/

namespace Statement

/-- The mentions of nodes; only chains have some. -/
def mentions : Statement → List NodeRef
  | .chain c => c.references
  | _ => []

/-- The classes given to nodes, each with the node it is given to. -/
def assignments : Statement → List (String × String)
  | .chain c => c.references.flatMap fun r => r.classes.map fun name => (r.id, name)
  | .assignClasses pairs => pairs
  | _ => []

end Statement

/-! ## The statements of a text -/

/-- The statement that stands on the line of the header after it, if there is one. -/
def headerStatement? (h : Header) : Option Statement :=
  if h.token.isEmpty || h.statement.isEmpty then none else some (readStatement h.statement)

/-- The statements of a text after its header, each with the number of its line. -/
def statementsOf (text : String) : List (Nat × Statement) :=
  match numberedStatements ((Text.lines text).map String.toList) with
  | [] => []
  | (line, first) :: rest =>
    ((readHeader? first).bind headerStatement?).toList.map (Prod.mk line) ++
      rest.map fun s => (s.1, readStatement s.2)

/-- The mentions of nodes in a text, in order. -/
def mentionsIn (text : String) : List NodeRef :=
  (statementsOf text).flatMap fun s => s.2.mentions

/-- The classes that a text gives to nodes, in order. -/
def assignmentsIn (text : String) : List (String × String) :=
  (statementsOf text).flatMap fun s => s.2.assignments

/-- Every statement of a text was read from some part of it. -/
theorem mem_statementsOf {text : String} {s : Nat × Statement} (hs : s ∈ statementsOf text) :
    ∃ cs, s.2 = readStatement cs := by
  unfold statementsOf at hs
  split at hs
  · cases hs
  · next line first rest _ =>
    rcases List.mem_append.mp hs with hs | hs
    · obtain ⟨t, ht, rfl⟩ := List.mem_map.mp hs
      obtain ⟨h, -, ht⟩ := Option.bind_eq_some_iff.mp (Option.mem_toList.mp ht)
      unfold headerStatement? at ht
      split at ht
      · cases ht
      · exact ⟨h.statement, (Option.some.inj ht).symm⟩
    · obtain ⟨t, -, rfl⟩ := List.mem_map.mp hs
      exact ⟨t.2, rfl⟩

/-! ## Outcomes -/

/-- What is read off a result shows that there is one. -/
theorem exists_ok_of_map {ε α β : Type} {x : Except ε α} {f : α → β} {y : β}
    (h : x.toOption.map f = some y) : ∃ a, x = .ok a ∧ f a = y := by
  cases x with
  | error e => cases h
  | ok a => exact ⟨a, rfl, Option.some.inj h⟩

theorem exists_ok_of_bind {ε α β : Type} {x : Except ε α} {f : α → Except ε β} {y : β}
    (h : x >>= f = .ok y) : ∃ a, x = .ok a ∧ f a = .ok y := by
  cases x with
  | error e => cases h
  | ok a => exact ⟨a, rfl, h⟩

/-! ## The builder that a text leads to -/

/-- Carries out the statements of a text given by its lines. -/
def buildLines (lines : List (List Char)) : Except ParseError Builder :=
  match numberedStatements lines with
  | [] => .error .emptyInput
  | (line, first) :: rest =>
    match readHeader? first with
    | none => .error (.missingHeader line)
    | some h => (startDiagram lines line h).map (runStatements · rest)

/-- Carries out the statements of a text. -/
def buildText (text : String) : Except ParseError Builder :=
  buildLines ((Text.lines text).map String.toList)

/-- Reading a text is building it and finishing the builder. -/
theorem parseDocument_eq (text : String) (read : SettingsReader) :
    parseDocument text read = (buildText text).map fun b =>
      ⟨b.finish, lastSettings? read ((Text.lines text).map String.toList), b.warnings⟩ := by
  unfold parseDocument parseLines buildText buildLines
  cases numberedStatements ((Text.lines text).map String.toList) with
  | nil => rfl
  | cons s rest =>
    obtain ⟨line, first⟩ := s
    dsimp only
    cases readHeader? first with
    | none => rfl
    | some h =>
      dsimp only
      cases startDiagram ((Text.lines text).map String.toList) line h <;> rfl

/-- A document that was read comes from a builder. -/
theorem exists_buildText_eq {text : String} {read : SettingsReader} {doc : Document}
    (h : parseDocument text read = .ok doc) : ∃ b, buildText text = .ok b ∧
      doc = ⟨b.finish, lastSettings? read ((Text.lines text).map String.toList), b.warnings⟩ := by
  rw [parseDocument_eq] at h
  cases hb : buildText text with
  | error e =>
    rw [hb] at h
    cases h
  | ok b =>
    rw [hb] at h
    exact ⟨b, rfl, (Except.ok.inj h).symm⟩

theorem exists_buildText {text : String} {read : SettingsReader} {doc : Document}
    (h : parseDocument text read = .ok doc) : ∃ b, buildText text = .ok b ∧ doc.diagram = b.finish := by
  obtain ⟨b, hb, rfl⟩ := exists_buildText_eq h
  exact ⟨b, hb, rfl⟩

/-- Only chains enter nodes, with their numbers, and links, and only they and class lines give
classes to nodes. -/
theorem Builder.run_of_not_chain (b : Builder) (line : Nat) {s : Statement}
    (hs : ∀ c, s ≠ .chain c) : (b.run line s).diagram.nodes = b.diagram.nodes ∧
      (b.run line s).diagram.nodeOrder = b.diagram.nodeOrder ∧
      (b.run line s).diagram.edges = b.diagram.edges ∧
      (b.run line s).classRequests = b.classRequests ++ s.assignments := by
  have hnone : b.classRequests = b.classRequests ++ [] := (List.append_nil _).symm
  cases s with
  | closeBlock =>
    rw [run, closeBlock]
    split <;> exact ⟨rfl, rfl, rfl, hnone⟩
  | openBlock header =>
    rw [run, openBlock]
    cases header.id <;> exact ⟨rfl, rfl, rfl, hnone⟩
  | direction d =>
    rw [run, setDirection]
    split <;> exact ⟨rfl, rfl, rfl, hnone⟩
  | defineClasses style => cases style <;> exact ⟨rfl, rfl, rfl, hnone⟩
  | assignClasses pairs => exact ⟨rfl, rfl, rfl, rfl⟩
  | styleNodes style => cases style <;> exact ⟨rfl, rfl, rfl, hnone⟩
  | styleLinks style =>
    cases style with
    | none => exact ⟨rfl, rfl, rfl, hnone⟩
    | some style => obtain ⟨selection | indices, style⟩ := style <;> exact ⟨rfl, rfl, rfl, hnone⟩
  | ignored => exact ⟨rfl, rfl, rfl, hnone⟩
  | chain c => exact absurd rfl (hs c)
  | rejected reason => exact ⟨rfl, rfl, rfl, hnone⟩

/-- Carries out statements one after the other. -/
def Builder.runAll (b : Builder) (statements : List (Nat × Statement)) : Builder :=
  statements.foldl (fun b s => b.run s.1 s.2) b

@[simp] theorem Builder.runAll_nil (b : Builder) : b.runAll [] = b := rfl

theorem Builder.runAll_cons (b : Builder) (s : Nat × Statement)
    (statements : List (Nat × Statement)) :
    b.runAll (s :: statements) = (b.run s.1 s.2).runAll statements := rfl

theorem Builder.runAll_append (b : Builder) (l l' : List (Nat × Statement)) :
    b.runAll (l ++ l') = (b.runAll l).runAll l' := List.foldl_append

theorem runStatements_eq (b : Builder) (statements : List (Nat × List Char)) :
    runStatements b statements = b.runAll (statements.map fun s => (s.1, readStatement s.2)) := by
  rw [Builder.runAll, List.foldl_map]
  rfl

/-- The header sets the direction, and then the statement on its line is carried out, wherever the
header stands. -/
theorem startDiagram_eq {lines : List (List Char)} {line : Nat} {h : Header} {b : Builder}
    (hb : startDiagram lines line h = .ok b) : ∃ d, ∀ lines' line',
      startDiagram lines' line' h = .ok (Builder.runAll { diagram := { direction := d } }
        ((headerStatement? h).toList.map (Prod.mk line'))) := by
  unfold startDiagram at hb ⊢
  unfold headerStatement?
  cases htoken : h.token.isEmpty with
  | true => exact ⟨.topDown, fun _ _ => rfl⟩
  | false =>
    rw [htoken] at hb
    simp only [Bool.false_eq_true, if_false, Bool.false_or] at hb ⊢
    split at hb
    · cases hb
    · next d hd =>
      refine ⟨d, fun lines' line' => ?_⟩
      cases h.statement.isEmpty <;> rfl

/-- If the statements of a text can be carried out, so can those of every text that begins with the
same statement, on whatever line this stands. -/
theorem buildText_moved {text : String} {b : Builder} (h : buildText text = .ok b) :
    ∃ d, ∀ text' : String,
      (numberedStatements ((Text.lines text').map String.toList)).head?.map Prod.snd =
        (numberedStatements ((Text.lines text).map String.toList)).head?.map Prod.snd →
      buildText text' =
        .ok (Builder.runAll { diagram := { direction := d } } (statementsOf text')) := by
  unfold buildText buildLines at h
  cases hstatements : numberedStatements ((Text.lines text).map String.toList) with
  | nil =>
    rw [hstatements] at h
    cases h
  | cons s rest =>
    obtain ⟨line, first⟩ := s
    rw [hstatements] at h
    dsimp only at h
    cases hheader : readHeader? first with
    | none =>
      rw [hheader] at h
      cases h
    | some header =>
      rw [hheader] at h
      dsimp only at h
      cases hb : startDiagram ((Text.lines text).map String.toList) line header with
      | error e =>
        rw [hb] at h
        cases h
      | ok b' =>
        obtain ⟨d, hd⟩ := startDiagram_eq hb
        refine ⟨d, fun text' hfirst => ?_⟩
        cases hstatements' : numberedStatements ((Text.lines text').map String.toList) with
        | nil =>
          rw [hstatements'] at hfirst
          cases hfirst
        | cons s' rest' =>
          obtain ⟨line', first'⟩ := s'
          rw [hstatements'] at hfirst
          obtain rfl : first' = first := Option.some.inj hfirst
          rw [buildText, buildLines, statementsOf, hstatements']
          dsimp only
          rw [hheader, Option.bind_some, Builder.runAll_append, ← runStatements_eq]
          dsimp only
          rw [hd]
          rfl

/-- **The builder of a text** is what its statements make of an empty one. -/
theorem buildText_runAll {text : String} {b : Builder} (h : buildText text = .ok b) :
    ∃ d, b = Builder.runAll { diagram := { direction := d } } (statementsOf text) := by
  obtain ⟨d, hd⟩ := buildText_moved h
  exact ⟨d, Except.ok.inj (h.symm.trans (hd text rfl))⟩

/-- What holds of an empty builder and is kept by every statement holds of all builders that texts
lead to. -/
theorem buildText_induct {P : Builder → Prop} (hstart : ∀ d, P { diagram := { direction := d } })
    (hrun : ∀ b line s, P b → P (b.run line s)) {text : String} {b : Builder}
    (h : buildText text = .ok b) : P b := by
  obtain ⟨d, rfl⟩ := buildText_runAll h
  exact List.foldlRecOn _ _ (hstart d) fun b hb s _ => hrun b s.1 s.2 hb

/-! ## Reading references -/

/-- A shape is given with a label and not without one. -/
theorem isSome_shape_readReference {cs : List Char} {r : NodeRef} (h : readReference cs = .ok r) :
    r.shape.isSome = r.label.isSome := by
  unfold readReference at h
  dsimp only at h
  split at h
  · split at h
    · obtain rfl := Except.ok.inj h
      rfl
    · cases h
  · split at h
    · cases h
    · split at h
      · obtain rfl := Except.ok.inj h
        rfl
      · cases h

theorem mem_readParts {blank : Bool} {parts : List (List Char)} {refs : List NodeRef}
    (h : readParts blank parts = .ok refs) : ∀ r ∈ refs, ∃ part, readReference part = .ok r := by
  induction parts generalizing refs with
  | nil =>
    obtain rfl := Except.ok.inj h
    exact fun r hr => absurd hr List.not_mem_nil
  | cons part rest ih =>
    rw [readParts] at h
    split at h
    · split at h
      · exact ih h
      · cases h
    · obtain ⟨node, hnode, h⟩ := exists_ok_of_bind h
      obtain ⟨nodes, hnodes, h⟩ := exists_ok_of_bind h
      obtain rfl := Except.ok.inj h
      intro r hr
      rcases List.mem_cons.mp hr with rfl | hr
      · exact ⟨part, hnode⟩
      · exact ih hnodes r hr

theorem mem_readFullGroup {ms : List Marked} {reason : Rejection} {refs : List NodeRef}
    (h : readFullGroup ms reason = .ok refs) : ∀ r ∈ refs, ∃ part, readReference part = .ok r := by
  obtain ⟨nodes, hnodes, h⟩ := exists_ok_of_bind h
  split at h
  · cases h
  · obtain rfl := Except.ok.inj h
    exact mem_readParts hnodes

theorem mem_readLinks {pending : Option (Option String)} {links : List (Link × List Marked)}
    {rest : List (Link × List NodeRef)} (h : readLinks pending links = .ok rest) :
    ∀ r ∈ rest.flatMap Prod.snd, ∃ part, readReference part = .ok r := by
  induction links generalizing pending rest with
  | nil =>
    obtain rfl := Except.ok.inj h
    exact fun r hr => absurd hr List.not_mem_nil
  | cons l links ih =>
    obtain ⟨link, text⟩ := l
    rw [readLinks] at h
    obtain ⟨nodes, hnodes, h⟩ := exists_ok_of_bind h
    obtain ⟨groups, hgroups, h⟩ := exists_ok_of_bind h
    obtain rfl := Except.ok.inj h
    intro r hr
    rw [List.flatMap_cons] at hr
    rcases List.mem_append.mp hr with hr | hr
    · exact mem_readFullGroup hnodes r hr
    · exact ih hgroups r hr

/-- Every mention in a chain was read as a reference. -/
theorem mem_readChain {cs : List Char} {c : Chain} (h : readChain cs = .ok c) :
    ∀ r ∈ c.references, ∃ part, readReference part = .ok r := by
  obtain ⟨links, -, h⟩ := exists_ok_of_bind h
  obtain ⟨first, hfirst, h⟩ := exists_ok_of_bind h
  obtain ⟨rest, hrest, h⟩ := exists_ok_of_bind h
  obtain rfl := Except.ok.inj h
  intro r hr
  rcases List.mem_append.mp hr with hr | hr
  · exact mem_readFullGroup hfirst r hr
  · exact mem_readLinks hrest r hr

/-- A statement that is read as a chain was read by the reader of chains, for every other branch
makes a statement of another kind. -/
theorem readChain_of_readStatement {cs : List Char} {c : Chain} (h : readStatement cs = .chain c) :
    readChain cs = .ok c := by
  unfold readStatement at h
  repeat' split at h
  -- every branch but one makes a statement of another kind
  all_goals cases h
  assumption

/-- Mentions in a statement that was read give a shape with a label and not without one. -/
theorem isSome_shape_readStatement {cs : List Char} :
    ∀ r ∈ (readStatement cs).mentions, r.shape.isSome = r.label.isSome := by
  intro r hr
  cases hs : readStatement cs with
  | chain c =>
    rw [hs] at hr
    obtain ⟨part, hpart⟩ := mem_readChain (readChain_of_readStatement hs) r hr
    exact isSome_shape_readReference hpart
  | _ =>
    rw [hs] at hr
    exact absurd hr List.not_mem_nil

theorem isSome_shape_mentionsIn (text : String) :
    ∀ r ∈ mentionsIn text, r.shape.isSome = r.label.isSome := by
  intro r hr
  obtain ⟨s, hs, hr⟩ := List.mem_flatMap.mp hr
  obtain ⟨cs, hcs⟩ := mem_statementsOf hs
  rw [hcs] at hr
  exact isSome_shape_readStatement r hr

end Flowchart

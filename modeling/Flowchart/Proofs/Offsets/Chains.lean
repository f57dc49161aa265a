import Flowchart.Grammar.Chain
import Flowchart.Proofs.Offsets.Arrows

/-!
# Reading chains by offsets

A statement is read as a chain by offsets alone: arrows are found in its mask, the text between two
arrows is cut out of statement and mask, labels between bars are looked for in the statement itself
and move the ends of what is cut, and separators of nodes are looked for in the mask. Offsets in the
mask and offsets in the statement meet in these cuts.

Every offset is the number of bytes of a front part of the marked statement, so they all are
boundaries between characters in the statement as in the mask. No slice fails, whatever the
statement is, and the chain or the rejection is the one that is read from the marked characters.
-/

namespace Flowchart

open String (utf8Len)

open Marked (chars shownChars maskText size Covers)

/-! ## The reader -/

/-- Joins opening and closing arrows to links; the label is cut out between them. -/
def joinByOffset (stmt : List Char) : List (Spanned ArrowToken) → Slicing (List (Spanned Link))
  | [] => return []
  | ⟨.link kind line, start, stop⟩ :: spans =>
    return ⟨⟨kind, line, none⟩, start, stop⟩ :: (← joinByOffset stmt spans)
  | ⟨.labelOpen, start, opened⟩ :: ⟨.link kind line, closing, stop⟩ :: spans => do
    let label ← cleanLabelByOffset (← slice? stmt opened closing)
    return ⟨⟨kind, line, label⟩, start, stop⟩ :: (← joinByOffset stmt spans)
  | ⟨.labelOpen, _, _⟩ :: _ => throw .openEdgeLabel

/-- Takes a label between bars from the front of a part; gives the new beginning of the part. -/
def frontLabelByOffset (stmt : List Char) (start stop : Nat) :
    Option (Option (Option String) × Nat) := do
  let text ← slice? stmt start stop
  let solid := start + (utf8Len text - utf8Len (Text.dropFront Text.isBlank text))
  match ← slice? stmt solid stop with
  | c :: rest =>
    if c == '|' then
      match (charOffsets (· == '|') 0 rest).head? with
      | some close => do
        let label ← cleanLabelByOffset (← slice? rest 0 close)
        return (some label, solid + 1 + close + 1)
      | none => return (none, start)
    else return (none, start)
  | [] => return (none, start)

/-- Takes a label between bars from the back of a part; gives the new end of the part. -/
def backLabelByOffset (stmt : List Char) (start stop : Nat) :
    Option (Option (Option String) × Nat) := do
  let text := Text.dropBack Text.isBlank (← slice? stmt start stop)
  if text.getLast? == some '|' then
    let inner := text.dropLast
    match (charOffsets (· == '|') 0 inner).getLast? with
    | some opening => do
      let label ← cleanLabelByOffset (← slice? inner (opening + 1) (utf8Len inner))
      return (some label, start + opening)
    | none => return (none, stop)
  else return (none, stop)

/-- Reads the nodes between separators at offsets. -/
def partsByOffset (text : List Char) (blank : Bool) :
    (start : Nat) → (stops : List Nat) → Slicing (List NodeRef)
  | _, [] => return []
  | start, stop :: stops => do
    let part := Text.trimChars (← slice? text start stop)
    if part.isEmpty then
      if blank then partsByOffset text blank (stop + 1) stops else throw .emptyReference
    else do
      let node ← readReferenceByOffset part
      return node :: (← partsByOffset text blank (stop + 1) stops)

/-- Reads a group of nodes; its separators are those of its mask. -/
def groupByOffset (text mask : List Char) : Slicing (List NodeRef) :=
  partsByOffset text (mask.all Text.isBlank) 0 (charOffsets (· == '&') 0 mask ++ [utf8Len mask])

/-- Cuts out and reads a group that must not be empty. -/
def fullGroupByOffset (stmt mask : List Char) (start stop : Nat) (whenEmpty : Rejection) :
    Slicing (List NodeRef) := do
  let nodes ← groupByOffset (← slice? stmt start stop) (← slice? mask start stop)
  if nodes.isEmpty then throw whenEmpty else return nodes

/-- Where the part before some links ends. -/
def nextStart (stmt : List Char) : List (Spanned Link) → Nat
  | [] => utf8Len stmt
  | hop :: _ => hop.start

/-- Takes a label between bars from the back of the part before some links, if there is a link. -/
def pendingByOffset (stmt : List Char) (start : Nat) (hops : List (Spanned Link)) :
    Option (Option (Option String) × Nat) :=
  if hops.isEmpty then some (none, nextStart stmt hops)
  else backLabelByOffset stmt start (nextStart stmt hops)

/-- Reads the groups after links. -/
def linksByOffset (stmt mask : List Char) (pending : Option (Option String)) :
    List (Spanned Link) → Slicing (List (Link × List NodeRef))
  | [] => return []
  | hop :: hops => do
    let (label, start) ← frontLabelByOffset stmt hop.stop (nextStart stmt hops)
    let link := (hop.what.withLabel pending).withLabel label
    let (after, stop) ← pendingByOffset stmt start hops
    let nodes ← fullGroupByOffset stmt mask start stop .noTarget
    return (link, nodes) :: (← linksByOffset stmt mask after hops)

/-- Reads a statement as a chain. -/
def chainByOffset (stmt : List Char) : Slicing Chain := do
  let mask := maskText (markLabels stmt)
  let hops ← joinByOffset stmt (← arrowsByOffset mask)
  let (after, stop) ← pendingByOffset stmt 0 hops
  let first ← fullGroupByOffset stmt mask 0 stop .noSource
  return ⟨first, ← linksByOffset stmt mask after hops⟩

/-! ## Links -/

section

variable {ms piece cur : List Marked} {start stop : Nat}

/-- Joined arrows are links that lie at offsets, or both readers reject them. -/
def Joined (ms : List Marked) (start : Nat) (read : Except Rejection (List (Link × List Marked)))
    (cut : Slicing (List (Spanned Link))) : Prop :=
  match read with
  | .error e => cut = .safe (.error e)
  | .ok links => ∃ hops, cut = .safe (.ok hops) ∧ Laid ms start links hops

/-- One more link may be put before links that were joined alike. -/
theorem Joined.cons {read : Except Rejection (List (Link × List Marked))}
    {cut : Slicing (List (Spanned Link))} {next : Nat} {text : List Marked} (link : Link)
    (start : Nat) (htext : Covers ms stop next text) (h : Joined ms next read cut) :
    Joined ms start (do return (link, text) :: (← read))
      (do return ⟨link, start, stop⟩ :: (← cut)) := by
  cases read with
  | error e =>
    obtain rfl : cut = .safe (.error e) := h
    exact rfl
  | ok links =>
    obtain ⟨hops, rfl, hlaid⟩ := h
    exact ⟨_, rfl, .cons htext hlaid⟩

/-- Openings are joined with the arrows behind them in the same way, whether their texts are cut
from the marks or by offsets, and both fail together. -/
theorem joined_joinByOffset {parts : List (ArrowToken × List Marked)}
    {spans : List (Spanned ArrowToken)} (h : Laid ms start parts spans) :
    Joined ms start (joinArrows parts) (joinByOffset (chars ms) spans) := by
  induction parts using joinArrows.induct generalizing start spans with
  | case1 =>
    cases h
    exact ⟨[], rfl, .nil⟩
  | case2 kind line text rest ih =>
    obtain _ | ⟨htext, hlaid⟩ := h
    exact .cons _ _ htext (ih hlaid)
  | case3 label kind line text rest ih =>
    obtain _ | ⟨hlabel, hlaid⟩ := h
    obtain _ | ⟨htext, hlaid⟩ := hlaid
    rw [joinByOffset, hlabel.slice?_chars, Slicing.some_bind, cleanLabelByOffset_eq,
      Slicing.some_bind]
    exact .cons _ _ htext (ih hlaid)
  | case4 label rest hnot =>
    obtain _ | ⟨hlabel, hlaid⟩ := h
    rw [joinArrows]
    · cases hlaid with
      | nil => rfl
      | @cons _ _ _ what _ _ _ _ _ =>
        cases what with
        | labelOpen => rfl
        | link kind line => exact (hnot kind line _ _ rfl).elim
    · exact hnot

/-! ## Labels between bars -/

/-- A text holds no bar, or it is cut at its first one. -/
theorem exists_first_bar (ms : List Marked) : (∀ m ∈ ms, (m.char == '|') = false) ∨
    ∃ label m body, ms = label ++ m :: body ∧ (m.char == '|') = true ∧
      ∀ m ∈ label, (m.char == '|') = false := by
  cases hfind : ms.find? (·.char == '|') with
  | none => exact .inl fun m hm => Bool.eq_false_iff.mpr (List.find?_eq_none.mp hfind m hm)
  | some m =>
    obtain ⟨hm, label, body, rfl, hlabel⟩ := List.find?_eq_some_iff_append.mp hfind
    exact .inr ⟨label, m, body, rfl, hm, by simpa using hlabel⟩

/-- A bar is one byte long, so cutting one byte behind its start cuts behind it. -/
theorem size_bar {m : Marked} (hm : (m.char == '|') = true) : size [m] = 1 := by
  rw [Marked.size_singleton, beq_iff_eq.mp hm]
  rfl

/-- What stands behind a bar is a slice of the text, for the byte after the bar begins a
character. -/
theorem slice?_behind_bar {c : Char} (hc : (c == '|') = true) (xs ys : List Char) :
    slice? (xs ++ c :: ys) (utf8Len xs + 1) (utf8Len (xs ++ c :: ys)) = some ys := by
  obtain rfl := beq_iff_eq.mp hc
  have h := slice?_back (xs ++ ['|']) ys
  rwa [List.append_assoc, String.utf8Len_append _ ['|']] at h

/-- What holds of all marks holds of their characters. -/
theorem chars_of_forall {p : Char → Bool} (h : ∀ m ∈ ms, p m.char = false) :
    ∀ c ∈ chars ms, p c = false := by
  intro c hc
  obtain ⟨m, hm, rfl⟩ := List.mem_map.mp hc
  exact h m hm

/-- What stands before the first bar, and the rest from there on. -/
theorem takeWhile_no_bar (h : ∀ m ∈ ms, (m.char == '|') = false) :
    (ms.takeWhile fun m => m.char != '|') = ms :=
  List.takeWhile_eq_self_iff.mpr fun m hm => by rw [bne, h m hm]; rfl

/-- What stands before the first bar is taken, and the bar is not. -/
theorem takeWhile_bar {m : Marked} {body : List Marked} (h : ∀ m ∈ ms, (m.char == '|') = false)
    (hm : (m.char == '|') = true) :
    ((ms ++ m :: body).takeWhile fun m => m.char != '|') = ms := by
  rw [List.takeWhile_append_of_pos fun m hm => by rw [bne, h m hm]; rfl,
    List.takeWhile_cons_of_neg (by rw [bne, hm]; decide), List.append_nil]

/-- The label at the front of a piece is found by offsets as it is found in the marks, and what is
left begins behind its second bar. -/
theorem frontLabelByOffset_eq (h : Covers ms start stop piece) : ∃ begin,
    frontLabelByOffset (chars ms) start stop = some ((takeFrontLabel piece).label, begin) ∧
      Covers ms begin stop (takeFrontLabel piece).rest := by
  have hpiece : piece = (piece.takeWhile fun m => Text.isBlank m.char) ++
      piece.dropWhile fun m => Text.isBlank m.char := List.takeWhile_append_dropWhile.symm
  have hdrop : Text.dropFront Text.isBlank (chars piece) =
      chars (piece.dropWhile fun m => Text.isBlank m.char) := List.dropWhile_map
  rw [frontLabelByOffset, h.slice?_chars, takeFrontLabel, Option.bind_eq_bind, Option.bind_some,
    hdrop]
  generalize (piece.takeWhile fun m => Text.isBlank m.char) = blanks at hpiece
  generalize (piece.dropWhile fun m => Text.isBlank m.char) = body at hpiece
  have hsolid : start + (utf8Len (chars piece) - utf8Len (chars body)) = start + size blanks := by
    rw [hpiece, chars_append, String.utf8Len_append, Nat.add_sub_cancel]
    rfl
  have hbody : Covers ms (start + size blanks) stop body := (hpiece ▸ h).back
  rw [hsolid]
  dsimp only
  rw [hbody.slice?_chars]
  cases body with
  | nil => exact ⟨start, rfl, h⟩
  | cons m rest =>
    have hchars : chars (m :: rest) = m.char :: chars rest := rfl
    rw [hchars, Option.bind_eq_bind, Option.bind_some]
    dsimp only
    cases hbar : m.char == '|' with
    | false => exact ⟨start, rfl, h⟩
    | true =>
      rw [if_pos rfl, if_pos rfl]
      obtain hnone | ⟨label, m', inner, rfl, hm', hlabel⟩ := exists_first_bar rest
      · rw [charOffsets_eq_nil (chars_of_forall hnone), takeWhile_no_bar hnone, List.drop_length]
        exact ⟨start, rfl, h⟩
      · have hinner : chars (label ++ m' :: inner) = chars label ++ m'.char :: chars inner :=
          chars_append label (m' :: inner)
        have hrest : Covers ms (start + size blanks + 1 + size label + 1) stop inner := by
          have hlabelled : Covers ms (start + size blanks) stop ([m] ++ (label ++ ([m'] ++ inner))) :=
            hbody
          have h := hlabelled.back.back.back
          rwa [size_bar hbar, size_bar hm'] at h
        rw [hinner, head?_charOffsets (p := (· == '|')) (chars_of_forall hlabel) hm', Nat.zero_add,
          takeWhile_bar hlabel hm', List.drop_left]
        dsimp only
        rw [slice?_front, Option.bind_some, cleanLabelByOffset_eq, Option.bind_some]
        exact ⟨_, rfl, hrest⟩

/-- The label at the back of a piece is found in the same way, and what is left ends before its
first bar. -/
theorem backLabelByOffset_eq (h : Covers ms start stop piece) : ∃ finish,
    backLabelByOffset (chars ms) start stop = some ((takeBackLabel piece).label, finish) ∧
      Covers ms start finish (takeBackLabel piece).rest := by
  have hpiece : piece.reverse = (piece.reverse.takeWhile fun m => Text.isBlank m.char) ++
      piece.reverse.dropWhile fun m => Text.isBlank m.char :=
    List.takeWhile_append_dropWhile.symm
  have hdrop : Text.dropBack Text.isBlank (chars piece) =
      chars (piece.reverse.dropWhile fun m => Text.isBlank m.char).reverse := by
    rw [Text.dropBack, chars, chars, ← List.map_reverse, List.dropWhile_map, ← List.map_reverse]
    rfl
  rw [backLabelByOffset, h.slice?_chars, takeBackLabel, Option.bind_eq_bind, Option.bind_some,
    hdrop]
  generalize (piece.reverse.takeWhile fun m => Text.isBlank m.char) = blanks at hpiece
  generalize (piece.reverse.dropWhile fun m => Text.isBlank m.char) = body at hpiece
  cases body with
  | nil => exact ⟨stop, rfl, h⟩
  | cons m rest =>
    have hchars : chars (m :: rest).reverse = chars rest.reverse ++ [m.char] := by
      rw [List.reverse_cons, chars_append]
      rfl
    rw [hchars]
    dsimp only
    rw [List.getLast?_concat, List.dropLast_concat, Option.some_beq_some]
    cases hbar : m.char == '|' with
    | false => exact ⟨stop, rfl, h⟩
    | true =>
      rw [if_pos rfl, if_pos rfl]
      obtain hnone | ⟨label, m', inner, rfl, hm', hlabel⟩ := exists_first_bar rest
      · have hnone' : ∀ m ∈ rest.reverse, (m.char == '|') = false := fun m hm =>
          hnone m (List.mem_reverse.mp hm)
        rw [charOffsets_eq_nil (chars_of_forall hnone'), takeWhile_no_bar hnone, List.drop_length]
        exact ⟨stop, rfl, h⟩
      · have hlabel' : ∀ m ∈ label.reverse, (m.char == '|') = false := fun m hm =>
          hlabel m (List.mem_reverse.mp hm)
        have hinner : chars (label ++ m' :: inner).reverse =
            chars inner.reverse ++ m'.char :: chars label.reverse := by
          rw [List.reverse_append, List.reverse_cons, List.append_assoc, chars_append]
          rfl
        have hparts : piece = inner.reverse ++ (m' :: (label.reverse ++ m :: blanks.reverse)) := by
          rw [← List.reverse_reverse piece, hpiece]
          simp
        rw [hinner, getLast?_charOffsets (p := (· == '|')) (chars_of_forall hlabel') hm',
          Nat.zero_add, takeWhile_bar hlabel hm', List.drop_left]
        dsimp only
        rw [slice?_behind_bar hm', Option.bind_some, cleanLabelByOffset_eq]
        exact ⟨_, rfl, (hparts ▸ h).front⟩

/-! ## Groups -/

/-- If the part up to the next stop can be cut out, and the parts after it are read, all parts are
read. -/
theorem partsByOffset_cons {text part : List Char} {blank : Bool} {stops : List Nat}
    {parts : List (List Char)} (hpart : slice? text start stop = some part)
    (hrest : partsByOffset text blank (stop + 1) stops = .safe (readParts blank parts)) :
    partsByOffset text blank start (stop :: stops) =
      .safe (readParts blank (Text.trimChars part :: parts)) := by
  rw [partsByOffset, hpart, Slicing.some_bind, readParts]
  dsimp only
  split
  next =>
    split
    next => exact hrest
    next => rfl
  next =>
    rw [readReferenceByOffset_eq, hrest]
    exact Slicing.safe_bind₂ _ _ _

/-- What is no separator is none in the mask. -/
theorem charOffsets_maskText_cons {m : Marked} (hm : (m.visible && m.char == '&') = false) :
    charOffsets (· == '&') start (maskText (m :: ms)) =
      charOffsets (· == '&') (start + size [m]) (maskText ms) := by
  have hnone : ∀ c ∈ maskText [m], (c == '&') = false := by
    intro c hc
    obtain ⟨d, visible⟩ := m
    cases visible with
    | true => rwa [List.mem_singleton.mp hc]
    | false =>
      obtain ⟨n, -, hmask⟩ := Marked.maskText_hidden d []
      have hnil : maskText [] = [] := rfl
      rw [hmask, hnil, List.append_nil] at hc
      rw [List.eq_of_mem_replicate hc]
      rfl
  have hmask : maskText (m :: ms) = maskText [m] ++ maskText ms := Marked.maskText_append [m] ms
  rw [hmask, charOffsets_append, charOffsets_eq_nil hnone, Marked.utf8Len_maskText]
  rfl

/-- The separators of a mask are the visible ones, and cut the text where they cut the marks. -/
theorem partsByOffset_eq (blank : Bool) (pre cur ms : List Marked)
    (hcur : ∀ m ∈ cur, (m.visible && m.char == '&') = false) :
    partsByOffset (chars (pre ++ (cur ++ ms))) blank (size pre)
        (charOffsets (· == '&') (size pre + size cur) (maskText ms) ++
          [size (pre ++ (cur ++ ms))]) =
      .safe (readParts blank
        ((splitReferences (cur ++ ms)).map fun part => Text.trimChars (chars part))) := by
  induction ms generalizing pre cur with
  | nil =>
    have hsplit : splitReferences (cur ++ []) = [cur] := by
      rw [List.append_nil]
      exact List.splitOnP_eq_singleton hcur
    have hlast : Covers (pre ++ (cur ++ [])) (size pre) (size (pre ++ (cur ++ []))) cur :=
      ⟨pre, [], rfl, rfl, by rw [List.append_nil, Marked.size_append]⟩
    rw [hsplit]
    exact partsByOffset_cons hlast.slice?_chars rfl
  | cons m ms ih =>
    cases hm : m.visible && m.char == '&' with
    | true =>
      obtain ⟨hvisible, hchar⟩ := Bool.and_eq_true_iff.mp hm
      obtain rfl : m = ⟨'&', true⟩ := by rw [← hvisible, ← beq_iff_eq.mp hchar]
      have hsplit : splitReferences (cur ++ ⟨'&', true⟩ :: ms) = cur :: splitReferences ms :=
        List.splitOnP_append_cons_of_forall_mem hcur _ hm ms
      have hpart : Covers (pre ++ (cur ++ ⟨'&', true⟩ :: ms)) (size pre) (size pre + size cur) cur :=
        ⟨pre, ⟨'&', true⟩ :: ms, rfl, rfl, rfl⟩
      have hrest := ih (pre ++ (cur ++ [⟨'&', true⟩])) [] fun m hm => by cases hm
      have hsize : size (pre ++ (cur ++ [⟨'&', true⟩])) = size pre + size cur + 1 := by
        rw [Marked.size_append, Marked.size_append, Nat.add_assoc]
        rfl
      have hnone : size [] = 0 := rfl
      rw [hsize, hnone, Nat.add_zero, List.nil_append, List.append_assoc, List.append_assoc,
        List.singleton_append] at hrest
      rw [hsplit]
      exact partsByOffset_cons hpart.slice?_chars hrest
    | false =>
      have hrest := ih pre (cur ++ [m]) fun x hx => by
        rcases List.mem_append.mp hx with hx | hx
        · exact hcur x hx
        · rw [List.mem_singleton.mp hx, hm]
      rw [Marked.size_append, List.append_assoc, List.singleton_append, ← Nat.add_assoc] at hrest
      rw [charOffsets_maskText_cons hm]
      exact hrest

theorem all_isBlank_maskText (ms : List Marked) :
    (maskText ms).all Text.isBlank = (shownChars ms).all Text.isBlank := by
  induction ms with
  | nil => rfl
  | cons m ms ih =>
    obtain ⟨c, visible⟩ := m
    cases visible with
    | true => exact congrArg (Text.isBlank c && ·) ih
    | false =>
      obtain ⟨n, -, hmask⟩ := Marked.maskText_hidden c ms
      have hspaces : (List.replicate (n + 1) ' ').all Text.isBlank = true :=
        List.all_eq_true.mpr fun d hd => by
          rw [List.eq_of_mem_replicate hd]
          decide
      rw [hmask, List.all_append, hspaces, ih]
      rfl

/-- A group is cut at the offsets of its separators without a slice that fails. -/
theorem groupByOffset_eq (ms : List Marked) :
    groupByOffset (chars ms) (maskText ms) = .safe (readGroup ms) := by
  have h := partsByOffset_eq ((shownChars ms).all Text.isBlank) [] [] ms (fun m hm => by cases hm)
  rw [groupByOffset, all_isBlank_maskText, Marked.utf8Len_maskText]
  exact h

/-- The same where an empty group is rejected. -/
theorem fullGroupByOffset_eq (h : Covers ms start stop piece) (whenEmpty : Rejection) :
    fullGroupByOffset (chars ms) (maskText ms) start stop whenEmpty =
      .safe (readFullGroup piece whenEmpty) := by
  rw [fullGroupByOffset, h.slice?_chars, h.slice?_maskText, Slicing.some_bind, Slicing.some_bind,
    groupByOffset_eq, readFullGroup]
  cases readGroup piece with
  | error e => rfl
  | ok nodes => cases nodes <;> rfl

/-! ## Chains -/

/-- The text before the next link ends where the link begins, or else at the end of the
statement. -/
theorem Laid.nextStart {next : Nat} {links : List (Link × List Marked)} {hops : List (Spanned Link)}
    (h : Laid ms next links hops) :
    Flowchart.nextStart (chars ms) hops = next ∧ hops.isEmpty = links.isEmpty := by
  cases h <;> exact ⟨rfl, rfl⟩

/-- What is taken from the back of a part before the next link. -/
theorem pendingByOffset_eq {next : Nat} {links : List (Link × List Marked)}
    {hops : List (Spanned Link)} (h : Laid ms next links hops) (hpiece : Covers ms start next piece) :
    let back : Unbarred := if links.isEmpty then ⟨none, piece⟩ else takeBackLabel piece
    ∃ finish, pendingByOffset (chars ms) start hops = some (back.label, finish) ∧
      Covers ms start finish back.rest := by
  obtain ⟨hnext, hempty⟩ := h.nextStart
  rw [pendingByOffset, hempty, hnext]
  cases links.isEmpty with
  | true => exact ⟨next, rfl, hpiece⟩
  | false => exact backLabelByOffset_eq hpiece

/-- Links are read one after the other from slices none of which fails, by induction on the
links. -/
theorem linksByOffset_eq {links : List (Link × List Marked)} {hops : List (Spanned Link)}
    (h : Laid ms start links hops) (pending : Option (Option String)) :
    linksByOffset (chars ms) (maskText ms) pending hops = .safe (readLinks pending links) := by
  induction h generalizing pending with
  | nil => rfl
  | cons htext hlaid ih =>
    obtain ⟨begin, hfront, hrest⟩ := frontLabelByOffset_eq htext
    obtain ⟨finish, hback, hgroup⟩ := pendingByOffset_eq hlaid hrest
    rw [linksByOffset, hlaid.nextStart.1, hfront, Slicing.some_bind, readLinks]
    dsimp only
    rw [hback, Slicing.some_bind]
    dsimp only
    rw [fullGroupByOffset_eq hgroup, ih]
    exact Slicing.safe_bind₂ _ _ _

/-- No slice fails, and what is read by offsets is what is read from the marked characters. -/
theorem chainByOffset_eq (cs : List Char) : chainByOffset cs = .safe (readChain cs) := by
  have hcs : chars (markLabels cs) = cs := chars_markFrom {} cs
  obtain ⟨tail, spans, hms, harrows, hlaid⟩ := arrowsByOffset_spec (markLabels cs)
  have hjoined := joined_joinByOffset hlaid
  have hfirst : Covers (markLabels cs) 0 (size (splitArrows (markLabels cs)).first)
      (splitArrows (markLabels cs)).first := ⟨[], tail, hms, rfl, (Nat.zero_add _).symm⟩
  rw [chainByOffset, harrows, readChain]
  dsimp only
  rw [Slicing.some_bind]
  rw [hcs] at hjoined
  cases hread : joinArrows (splitArrows (markLabels cs)).rest with
  | error e =>
    rw [hread] at hjoined
    have hcut : joinByOffset cs spans = .safe (.error e) := hjoined
    rw [hcut]
    rfl
  | ok links =>
    rw [hread] at hjoined
    obtain ⟨hops, hcut, hlinks⟩ := hjoined
    obtain ⟨finish, hback, hgroup⟩ := pendingByOffset_eq hlinks hfirst
    have hnodes := fullGroupByOffset_eq hgroup .noSource
    have hrest := fun pending => linksByOffset_eq hlinks pending
    rw [hcs] at hback hnodes hrest
    have hjoin : (Slicing.safe (.ok hops) : Slicing _) = pure hops := rfl
    rw [hcut, hjoin, pure_bind, hback, Slicing.some_bind]
    dsimp only
    rw [hnodes, hrest]
    exact Slicing.safe_bind₂ _ _ _

/-- The mask of every text is aligned with it. So class names are split off at the offset of the
colons in the mask, and a chain is read from slices at offsets in the mask and in the statement,
without a slice that is out of range or cuts through a character. -/
theorem labelMask_slices (s : String) : ByteAligned (labelMask s) s ∧
    splitClassesByOffset s.toList = some (splitClasses s.toList) ∧
    (chainByOffset s.toList).run = some (readChain s.toList) :=
  ⟨byteAligned_labelMask s, splitClassesByOffset_eq s.toList, chainByOffset_eq s.toList⟩

/-- Characters of several bytes stand before, inside and behind the label that is masked. -/
def wideLetters : String := "ä[\"é --> ü:::v\"]:::wörter -->|ß| x"

/-- For a text with characters of two bytes before, inside and behind its labels: the mask has
spaces for each byte that it hides, and no slice cuts through a character. -/
theorem labelMask_slices_wide :
    ByteAligned (labelMask wideLetters) wideLetters ∧
    labelMask wideLetters = "ä[               ]:::wörter -->|  | x" ∧
    splitClassesByOffset wideLetters.toList = some (splitClasses wideLetters.toList) ∧
    (chainByOffset wideLetters.toList).run = some (.ok
      ⟨[⟨"ä", some "é --> ü:::v", some .rectangle, ["wörter"]⟩],
        [(⟨.arrow, .solid, some "ß"⟩, [{ id := "x" }])]⟩) := by
  obtain ⟨haligned, hclasses, hchain⟩ := labelMask_slices wideLetters
  exact ⟨haligned, by decide +kernel, hclasses, hchain.trans (by decide +kernel)⟩

end

end Flowchart

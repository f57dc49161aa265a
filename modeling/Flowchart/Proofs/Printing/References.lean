import Flowchart.Proofs.Printing.Masking
import Mathlib.Data.List.TakeWhile

/-!
# Reading printed nodes and groups

A printed node is cut at its colons, which are visible, while those of the label are not. What
stands before them is the id up to the first character that opens a shape, and the rest is in the
delimiters of the shape: since the label is in quotes, another pair of delimiters fits only if it is
part of the right one, and all such pairs come later in the table.
-/

namespace Flowchart

/-! ## Marks and characters -/

/-- Marks stand for the characters of a text one by one, so the text can be read off them again. -/
theorem chars_markFrom (s : MaskState) (cs : List Char) : Marked.chars (markFrom s cs) = cs := by
  induction cs generalizing s with
  | nil => rfl
  | cons c cs ih => exact congrArg (c :: ·) (ih _)

theorem Settles.chars {cs : List Char} {ms : List Marked} (h : Settles cs ms) :
    Marked.chars ms = cs := by
  rw [← h.markLabels, Flowchart.markLabels, chars_markFrom]

theorem chars_visible (cs : List Char) : Marked.chars (visible cs) = cs := by
  rw [Marked.chars, visible, List.map_map]
  exact List.map_id cs

/-- The characters of two rows of marks are the characters of both in order. -/
theorem chars_append (ms ms' : List Marked) :
    Marked.chars (ms ++ ms') = Marked.chars ms ++ Marked.chars ms' := List.map_append

theorem mem_visible {m : Marked} {cs : List Char} :
    m ∈ visible cs ↔ m.visible = true ∧ m.char ∈ cs := by
  rw [visible, List.mem_map]
  constructor
  · rintro ⟨c, hc, rfl⟩
    exact ⟨rfl, hc⟩
  · rintro ⟨hv, hc⟩
    exact ⟨m.char, hc, by rw [← hv]⟩

/-- A visible mark shows its character, so what is shown is part of the text. -/
theorem shown_of_mem_visible {m : Marked} {cs : List Char} (h : m ∈ visible cs) : m.shown ∈ cs := by
  obtain ⟨hv, hc⟩ := mem_visible.mp h
  rwa [Marked.shown, if_pos hv]

/-- A hidden mark shows a blank in place of its character. -/
theorem shown_of_mem_hidden {m : Marked} {cs : List Char} (h : m ∈ hidden cs) : m.shown = ' ' := by
  obtain ⟨c, -, rfl⟩ := List.mem_map.mp h
  rfl

/-! ## What is seen of a node -/

/-- The signs that are seen of nodes. -/
def nodeSigns : List Char := [' ', ':', '[', '(', '{', '>', ']', ')', '}']

/-- What is seen of a label in its shape are blanks and the delimiters of the shape, never a
colon. -/
theorem shown_of_mem_bodyMarks {body : Option (Shape × QuotedText)} {m : Marked}
    (hm : m ∈ bodyMarks body) : m.shown ∈ nodeSigns ∧ m.shown ≠ ':' := by
  cases body with
  | none => cases hm
  | some b =>
    obtain ⟨s, label⟩ := b
    have hopening : s.outerOpening ∈ nodeSigns ∧ s.outerOpening ≠ ':' := by cases s <;> decide
    have hclosing : s.outerClosing ∈ nodeSigns ∧ s.outerClosing ≠ ':' := by cases s <;> decide
    rw [bodyMarks, List.mem_cons, List.mem_append, List.mem_singleton] at hm
    rcases hm with rfl | hm | rfl
    · exact hopening
    · rw [shown_of_mem_hidden hm]
      decide
    · exact hclosing

/-- What is seen of a node are the characters of its id and classes, its delimiters and its
colons. -/
theorem shown_of_mem_marks {n : PrintedNode} {m : Marked} (hm : m ∈ n.marks) :
    Text.isIdentifierChar m.shown = true ∨ m.shown ∈ nodeSigns := by
  rw [PrintedNode.marks, List.mem_append, List.mem_append] at hm
  rcases hm with hm | hm | hm
  · exact .inl (n.id.identifier _ (shown_of_mem_visible hm))
  · exact .inr (shown_of_mem_bodyMarks hm).1
  · obtain ⟨w, -, hw⟩ := List.mem_flatMap.mp (shown_of_mem_visible hm)
    simp only [List.mem_cons] at hw
    rcases hw with h | h | h | hw
    · exact .inr (by rw [h]; decide)
    · exact .inr (by rw [h]; decide)
    · exact .inr (by rw [h]; decide)
    · exact .inl (w.identifier _ hw)

/-! ## Ends of nodes -/

/-- The character is neither a blank nor a bar. -/
def isSolid (c : Char) : Bool := !Text.isBlank c && !(c == '|')

theorem isBlank_of_isSolid {c : Char} (h : isSolid c = true) : Text.isBlank c = false := by
  simpa using ((Bool.and_eq_true _ _).mp h).1

/-- The characters of an id are neither blank nor bars, so a text between two of them is not trimmed
at these ends. -/
theorem isSolid_of_isIdentifierChar {c : Char} (h : Text.isIdentifierChar c = true) :
    isSolid c = true := by
  have hbar : (c == '|') = false :=
    beq_eq_false_iff_ne.mpr (Text.ne_of_isIdentifierChar h (by decide))
  rw [isSolid, Text.isBlank_of_isIdentifierChar h, hbar]
  rfl

/-- What holds of the last characters of both parts holds of the last character of the whole. -/
theorem getLast?_append_of {P : Char → Prop} {cs cs' : List Char} (h : ∀ c ∈ cs.getLast?, P c)
    (h' : ∀ c ∈ cs'.getLast?, P c) : ∀ c ∈ (cs ++ cs').getLast?, P c := by
  intro c hc
  rw [List.getLast?_append] at hc
  cases hlast : cs'.getLast? with
  | some d =>
    rw [hlast, Option.some_or] at hc
    exact h' c (hlast.trans hc)
  | none =>
    rw [hlast, Option.none_or] at hc
    exact h c hc

/-- What holds of the last character of every part holds of the last character of them all, the
empty parts being passed over. -/
theorem getLast?_flatMap_of {β : Type} {P : Char → Prop} {f : β → List Char} {l : List β}
    (h : ∀ x, ∀ c ∈ (f x).getLast?, P c) : ∀ c ∈ (l.flatMap f).getLast?, P c := by
  induction l with
  | nil => exact fun c hc => by cases hc
  | cons x l ih => exact getLast?_append_of (h x) ih

/-- A word begins with a solid character, being made of such characters. -/
theorem Word.head?_solid (w : Word) : ∀ c ∈ w.chars.head?, isSolid c = true :=
  fun c hc => isSolid_of_isIdentifierChar (w.identifier c (List.mem_of_mem_head? hc))

theorem Word.getLast?_solid (w : Word) : ∀ c ∈ w.chars.getLast?, isSolid c = true :=
  fun c hc => isSolid_of_isIdentifierChar (w.identifier c (List.mem_of_getLast? hc))

/-- Trimming drops the blanks around a text with solid ends. -/
theorem trimChars_of_solid {pre cs post : List Char} (hpre : ∀ c ∈ pre, Text.isBlank c = true)
    (hpost : ∀ c ∈ post, Text.isBlank c = true) (hne : cs ≠ [])
    (hfirst : ∀ c ∈ cs.head?, isSolid c = true) (hlast : ∀ c ∈ cs.getLast?, isSolid c = true) :
    Text.trimChars (pre ++ (cs ++ post)) = cs :=
  Text.trimChars_pad hpre hpost hne (fun c hc => isBlank_of_isSolid (hfirst c hc))
    fun c hc => isBlank_of_isSolid (hlast c hc)

/-- A text with solid ends is left alone by trimming. -/
theorem trimChars_self {cs : List Char} (hne : cs ≠ [])
    (hfirst : ∀ c ∈ cs.head?, isSolid c = true) (hlast : ∀ c ∈ cs.getLast?, isSolid c = true) :
    Text.trimChars cs = cs :=
  Text.trimChars_eq_self hne (fun c hc => isBlank_of_isSolid (hfirst c hc))
    fun c hc => isBlank_of_isSolid (hlast c hc)

theorem Word.trimChars_eq (w : Word) : Text.trimChars w.chars = w.chars :=
  trimChars_self w.nonempty w.head?_solid w.getLast?_solid

namespace PrintedNode

/-- A label in its shape ends with the closing delimiter. -/
theorem getLast?_printBody {body : Option (Shape × QuotedText)} :
    ∀ c ∈ (printBody body).getLast?, isSolid c = true := by
  cases body with
  | none => simp [printBody]
  | some b =>
    obtain ⟨s, label⟩ := b
    have hsolid : isSolid s.outerClosing = true := by cases s <;> rfl
    have hlast : (printBody (some (s, label))).getLast? = some s.outerClosing := by
      rw [printBody, s.closing_eq]
      simp [List.getLast?_append, List.getLast?_cons]
    intro c hc
    rw [hlast] at hc
    exact Option.some.inj hc ▸ hsolid

/-- The classes of a node end with the last word among them. -/
theorem getLast?_printClasses {classes : List Word} :
    ∀ c ∈ (printClasses classes).getLast?, isSolid c = true := by
  have hcolons : ∀ c ∈ [':', ':', ':'].getLast?, isSolid c = true :=
    fun c hc => Option.some.inj hc ▸ rfl
  exact getLast?_flatMap_of fun w => getLast?_append_of hcolons w.getLast?_solid

/-- The text before the classes. -/
def base (n : PrintedNode) : List Char := n.id.chars ++ printBody n.body

theorem print_eq (n : PrintedNode) : n.print = n.base ++ printClasses n.classes :=
  (List.append_assoc ..).symm

theorem base_ne_nil (n : PrintedNode) : n.base ≠ [] :=
  List.append_ne_nil_of_left_ne_nil n.id.nonempty _

theorem print_ne_nil (n : PrintedNode) : n.print ≠ [] :=
  List.append_ne_nil_of_left_ne_nil n.id.nonempty _

/-- A node begins with its id, whatever follows it. -/
theorem head?_append_solid (n : PrintedNode) (cs : List Char) :
    ∀ c ∈ (n.id.chars ++ cs).head?, isSolid c = true := by
  have hhead : (n.id.chars ++ cs).head? = n.id.chars.head? := by
    obtain ⟨c, rest, h⟩ := List.exists_cons_of_ne_nil n.id.nonempty
    rw [h]
    rfl
  exact hhead ▸ n.id.head?_solid

theorem getLast?_base (n : PrintedNode) : ∀ c ∈ n.base.getLast?, isSolid c = true :=
  getLast?_append_of n.id.getLast?_solid getLast?_printBody

/-- A node ends with a class, a delimiter or its id, each of which ends with a solid character. -/
theorem getLast?_print (n : PrintedNode) : ∀ c ∈ n.print.getLast?, isSolid c = true :=
  n.print_eq ▸ getLast?_append_of n.getLast?_base getLast?_printClasses

/-- A node without its classes is left alone by trimming as well. -/
theorem trimChars_base (n : PrintedNode) : Text.trimChars n.base = n.base :=
  trimChars_self n.base_ne_nil (n.head?_append_solid _) n.getLast?_base

/-- Trimming drops the blanks around a printed node and nothing of the node, since that neither
begins nor ends with a blank. -/
theorem trimChars_print (n : PrintedNode) {pre post : List Char}
    (hpre : ∀ c ∈ pre, Text.isBlank c = true) (hpost : ∀ c ∈ post, Text.isBlank c = true) :
    Text.trimChars (pre ++ (n.print ++ post)) = n.print :=
  trimChars_of_solid hpre hpost n.print_ne_nil (n.head?_append_solid _) n.getLast?_print

end PrintedNode

/-! ## Classes -/

/-- No sign of the language stands in a word. -/
theorem Word.not_mem_of_sign (w : Word) {c : Char} (hc : c ∈ Text.signs) : c ∉ w.chars :=
  fun h => Text.ne_of_isIdentifierChar (w.identifier c h) hc rfl

theorem splitAtWord?_of_not_mem {c : Char} {word cs : List Char} (h : c ∉ cs) :
    Text.splitAtWord? (c :: word) cs = none := by
  induction cs with
  | nil => rfl
  | cons d cs ih =>
    have hne : (c == d) = false := beq_eq_false_iff_ne.mpr fun h' => h (h' ▸ List.mem_cons_self)
    rw [Text.splitAtWord?, List.isPrefixOf_cons_cons, hne, Bool.false_and, if_neg (by simp),
      ih fun h' => h (List.mem_cons_of_mem d h')]
    rfl

/-- A text is cut at the first place where the separator stands if its first character does not
stand before that. -/
theorem splitAtWord?_append {c : Char} {word cs rest : List Char} (h : c ∉ cs) :
    Text.splitAtWord? (c :: word) (cs ++ (c :: word ++ rest)) = some (cs, rest) := by
  induction cs with
  | nil =>
    have hprefix : (c :: word).isPrefixOf (c :: word ++ rest) = true := by simp
    rw [List.nil_append, List.cons_append, Text.splitAtWord?, ← List.cons_append, hprefix, if_pos rfl,
      List.drop_left]
  | cons d cs ih =>
    have hne : (c == d) = false := beq_eq_false_iff_ne.mpr fun h' => h (h' ▸ List.mem_cons_self)
    rw [List.cons_append, Text.splitAtWord?, List.isPrefixOf_cons_cons, hne, Bool.false_and,
      if_neg (by simp), ih fun h' => h (List.mem_cons_of_mem d h')]
    rfl

/-- A word has no comma in it, so it is a list of one. -/
theorem commaList_word (w : Word) : Text.commaList w.chars = [w.chars] := by
  have hsplit : w.chars.splitOnP (· == ',') = [w.chars] :=
    List.splitOnP_eq_singleton fun c hc => beq_eq_false_iff_ne.mpr
      (Text.ne_of_isIdentifierChar (w.identifier c hc) (by decide))
  have hne : w.chars.isEmpty = false := List.isEmpty_eq_false_iff.mpr w.nonempty
  rw [Text.commaList, hsplit, List.map_singleton, w.trimChars_eq,
    List.filter_cons_of_pos (by simp [hne])]
  rfl

/-- Classes that are written one after the other are cut into the words they were written from. The
fuel has to suffice for as many cuts as there are further classes. -/
theorem splitOnWord_printClasses (w : Word) (ws : List Word) {fuel : Nat} (h : ws.length ≤ fuel) :
    Text.splitOnWord [':', ':', ':'] fuel (w.chars ++ PrintedNode.printClasses ws) =
      (w :: ws).map Word.chars := by
  induction ws generalizing w fuel with
  | nil =>
    have hnone : Text.splitAtWord? [':', ':', ':'] w.chars = none :=
      splitAtWord?_of_not_mem (w.not_mem_of_sign (by decide))
    have hnil : w.chars ++ PrintedNode.printClasses [] = w.chars := List.append_nil _
    cases fuel with
    | zero => rw [hnil]; rfl
    | succ fuel => rw [hnil, Text.splitOnWord, hnone]; rfl
  | cons w' ws ih =>
    obtain ⟨fuel, rfl⟩ : ∃ k, fuel = k + 1 := ⟨fuel - 1, by rw [List.length_cons] at h; omega⟩
    have hsome : Text.splitAtWord? [':', ':', ':']
        (w.chars ++ ([':', ':', ':'] ++ (w'.chars ++ PrintedNode.printClasses ws))) =
        some (w.chars, w'.chars ++ PrintedNode.printClasses ws) :=
      splitAtWord?_append (w.not_mem_of_sign (by decide))
    have hcons : PrintedNode.printClasses (w' :: ws) =
        [':', ':', ':'] ++ (w'.chars ++ PrintedNode.printClasses ws) := rfl
    rw [hcons, Text.splitOnWord, hsome]
    exact congrArg (w.chars :: ·) (ih w' (by rw [List.length_cons] at h; omega))

/-- The names of the classes are read in the order in which they were written. -/
theorem classNames_print (w : Word) (ws : List Word) :
    classNames (w.chars ++ PrintedNode.printClasses ws) =
      (w :: ws).map fun w => String.ofList w.chars := by
  have hfuel : ws.length ≤ (w.chars ++ PrintedNode.printClasses ws).length := by
    have hclasses : ws.length ≤ (PrintedNode.printClasses ws).length := by
      induction ws with
      | nil => exact Nat.zero_le _
      | cons w' ws ih =>
        simp only [PrintedNode.printClasses, List.flatMap_cons, List.length_append,
          List.length_cons] at ih ⊢
        omega
    rw [List.length_append]
    omega
  rw [classNames, splitOnWord_printClasses w ws hfuel, List.flatMap_map]
  simp only [commaList_word]
  rw [← List.map_eq_flatMap, List.map_map]
  rfl

/-- Marks that show no colon are passed over when a node is cut at its colons. -/
theorem splitAtColons?_append {ms ms' : List Marked} (h : ∀ m ∈ ms, m.shown ≠ ':') :
    splitAtColons? (ms ++ ms') =
      (splitAtColons? ms').map fun p => (Marked.chars ms ++ p.1, p.2) := by
  induction ms with
  | nil =>
    rw [List.nil_append]
    cases splitAtColons? ms' <;> rfl
  | cons m ms ih =>
    have hne : (':' == m.shown) = false :=
      beq_eq_false_iff_ne.mpr fun h' => h m List.mem_cons_self h'.symm
    rw [List.cons_append, splitAtColons?, Marked.shownChars, List.map_cons,
      List.isPrefixOf_cons_cons, hne, Bool.false_and, if_neg (by simp),
      ih fun x hx => h x (List.mem_cons_of_mem m hx)]
    cases splitAtColons? ms' <;> rfl

/-- The classes of a node are cut off. -/
theorem splitClasses_print (n : PrintedNode) :
    splitClasses n.print = (n.base, n.classes.map fun w => String.ofList w.chars) := by
  have hbase : ∀ m ∈ visible n.id.chars ++ bodyMarks n.body, m.shown ≠ ':' := by
    intro m hm
    rcases List.mem_append.mp hm with hm | hm
    · exact Text.ne_of_isIdentifierChar (n.id.identifier _ (shown_of_mem_visible hm)) (by decide)
    · exact (shown_of_mem_bodyMarks hm).2
  have hchars : Marked.chars (visible n.id.chars ++ bodyMarks n.body) = n.base := by
    have h := (settles_node n).chars
    rw [PrintedNode.marks, ← List.append_assoc, chars_append, chars_visible,
      PrintedNode.print_eq] at h
    exact List.append_cancel_right h
  rw [splitClasses, (settles_node n).markLabels, PrintedNode.marks, ← List.append_assoc,
    splitAtColons?_append hbase, hchars]
  cases hclasses : n.classes with
  | nil =>
    have hnone : splitAtColons? (visible (PrintedNode.printClasses [])) = none := rfl
    rw [hnone]
    have hnil : n.print = n.base := by
      rw [PrintedNode.print_eq, hclasses]
      exact List.append_nil _
    rw [hnil, Option.map_none]
    simp only [n.trimChars_base]
    rfl
  | cons w ws =>
    have hsome : splitAtColons? (visible (PrintedNode.printClasses (w :: ws))) =
        some ([], w.chars ++ PrintedNode.printClasses ws) := by
      have hcons : visible (PrintedNode.printClasses (w :: ws)) =
          ⟨':', true⟩ :: ⟨':', true⟩ :: ⟨':', true⟩ ::
            visible (w.chars ++ PrintedNode.printClasses ws) := rfl
      rw [hcons, splitAtColons?, if_pos (by simp [Marked.shownChars, Marked.shown])]
      rw [List.drop_succ_cons, List.drop_succ_cons, List.drop_succ_cons, List.drop_zero,
        chars_visible]
    rw [hsome, Option.map_some]
    simp only [List.append_nil, n.trimChars_base, classNames_print]

/-! ## Shapes -/

/-- A text that does not contain a character ends before it. -/
theorem isPrefixOf_append_of_not_mem {o o' rest : List Char} {x : Char} (h : x ∉ o') :
    o'.isPrefixOf (o ++ x :: rest) = o'.isPrefixOf o := by
  induction o' generalizing o with
  | nil => simp
  | cons a o' ih =>
    cases o with
    | nil =>
      have hne : (a == x) = false := beq_eq_false_iff_ne.mpr fun h' => h (h' ▸ List.mem_cons_self)
      rw [List.nil_append, List.isPrefixOf_cons_cons, hne]
      rfl
    | cons b o =>
      rw [List.cons_append, List.isPrefixOf_cons_cons, List.isPrefixOf_cons_cons,
        ih fun h' => h (List.mem_cons_of_mem a h')]

/-- Delimiters that contain neither end of the text between fit if they are part of those that stand
there. -/
theorem between?_isSome {o c o' c' inner : List Char} (hne : inner ≠ [])
    (ho : ∀ x ∈ inner.head?, x ∉ o') (hc : ∀ x ∈ inner.getLast?, x ∉ c') :
    (between? o' c' (o ++ (inner ++ c))).isSome = (o'.isPrefixOf o && c'.isSuffixOf c) := by
  have hprefix : o'.isPrefixOf (o ++ (inner ++ c)) = o'.isPrefixOf o := by
    obtain ⟨x, rest, rfl⟩ := List.exists_cons_of_ne_nil hne
    exact isPrefixOf_append_of_not_mem (ho x rfl)
  have hsuffix : c'.isSuffixOf (o ++ (inner ++ c)) = c'.isSuffixOf c := by
    obtain ⟨rest, x, rfl⟩ : ∃ rest x, inner = rest ++ [x] :=
      ⟨_, _, (List.dropLast_concat_getLast hne).symm⟩
    have hreverse : (o ++ (rest ++ [x] ++ c)).reverse =
        c.reverse ++ x :: (rest.reverse ++ o.reverse) := by simp
    rw [List.isSuffixOf, hreverse, isPrefixOf_append_of_not_mem (by simpa using hc x (by simp))]
    rfl
  rw [between?, hprefix, hsuffix]
  cases hfit : o'.isPrefixOf o && c'.isSuffixOf c with
  | false => rw [Bool.and_assoc, hfit, Bool.and_false]; rfl
  | true =>
    obtain ⟨ho', hc'⟩ := (Bool.and_eq_true _ _).mp hfit
    have hlength : o'.length + c'.length ≤ (o ++ (inner ++ c)).length := by
      have h1 := (List.isPrefixOf_iff_prefix.mp ho').length_le
      have h2 := (List.isSuffixOf_iff_suffix.mp hc').length_le
      simp only [List.length_append]
      omega
    rw [decide_eq_true hlength, Bool.true_and, hfit]
    rfl

/-- The first entry that fits decides what is found, if fitting is what makes an entry give a
result. -/
theorem findSome?_of_find? {β γ : Type} {f : β → Option γ} {q : β → Bool} {l : List β} {d : β}
    (hq : ∀ x ∈ l, (f x).isSome = q x) (hd : l.find? q = some d) : l.findSome? f = f d := by
  induction l with
  | nil => cases hd
  | cons x l ih =>
    have hx := hq x List.mem_cons_self
    rw [List.find?_cons] at hd
    rw [List.findSome?_cons]
    cases hfx : f x with
    | some y =>
      rw [hfx, Option.isSome_some] at hx
      rw [← hx] at hd
      rw [← Option.some.inj hd, hfx]
    | none =>
      rw [hfx, Option.isSome_none] at hx
      rw [← hx] at hd
      exact ih (fun y hy => hq y (List.mem_cons_of_mem x hy)) hd

/-- Quotes around a label are taken off, and those inside it stay. -/
theorem stripQuotes_quoted (label : List Char) : stripQuotes ('"' :: (label ++ ['"'])) = label := by
  have hlast : ('"' :: (label ++ ['"'])).getLast? = some '"' := by
    rw [← List.cons_append, List.getLast?_concat]
  have htrim : Text.trimChars ('"' :: (label ++ ['"'])) = '"' :: (label ++ ['"']) :=
    trimChars_self (by simp) (fun c hc => Option.some.inj hc ▸ rfl)
      (fun c hc => by rw [hlast] at hc; exact Option.some.inj hc ▸ rfl)
  rw [stripQuotes, htrim, hlast]
  simp

/-- A label in the delimiters of a shape is read if no delimiter contains one of its ends. -/
theorem readShape?_enclosed (s : Shape) {inner : List Char} (hne : inner ≠ [])
    (hends : ∀ d ∈ shapeDelimiters,
      (∀ x ∈ inner.head?, x ∉ d.1) ∧ ∀ x ∈ inner.getLast?, x ∉ d.2.1) :
    readShape? (s.opening ++ (inner ++ s.closing)) =
      some (String.ofList (stripQuotes inner), s) := by
  have hfirst : shapeDelimiters.find? (fun d => d.1.isPrefixOf s.opening &&
      d.2.1.isSuffixOf s.closing) = some (s.opening, s.closing, s) := by cases s <;> rfl
  have hread : readShape? (s.opening ++ (inner ++ s.closing)) = shapeDelimiters.findSome?
      fun d => (between? d.1 d.2.1 (s.opening ++ (inner ++ s.closing))).map fun inner =>
        (String.ofList (stripQuotes inner), d.2.2) := rfl
  rw [hread, findSome?_of_find? (q := fun d => d.1.isPrefixOf s.opening &&
    d.2.1.isSuffixOf s.closing) (fun d hd => ?_) hfirst]
  · have hinner : between? s.opening s.closing (s.opening ++ (inner ++ s.closing)) =
        some inner := by
      have hlength : (s.opening ++ (inner ++ s.closing)).length -
          s.opening.length - s.closing.length = inner.length := by
        simp only [List.length_append]
        omega
      rw [between?, if_pos, List.drop_left, hlength, List.take_left]
      simp only [Bool.and_eq_true, decide_eq_true_eq, List.length_append,
        List.isPrefixOf_iff_prefix, List.isSuffixOf_iff_suffix]
      refine ⟨⟨by omega, List.prefix_append _ _⟩, ?_⟩
      rw [← List.append_assoc]
      exact List.suffix_append _ _
    rw [hinner, Option.map_some]
  · rw [Option.isSome_map]
    exact between?_isSome hne (hends d hd).1 (hends d hd).2

/-- **A printed shape is read** with its label. -/
theorem readShape?_print (s : Shape) (label : QuotedText) :
    readShape? (PrintedNode.printBody (some (s, label))) =
      some (String.ofList label.chars, s) := by
  have hquotes : ∀ d ∈ shapeDelimiters, '"' ∉ d.1 ∧ '"' ∉ d.2.1 := by decide
  have hbody : PrintedNode.printBody (some (s, label)) =
      s.opening ++ ('"' :: (label.chars ++ ['"']) ++ s.closing) := by
    simp [PrintedNode.printBody]
  have hlast : ('"' :: (label.chars ++ ['"'])).getLast? = some '"' := by
    rw [← List.cons_append, List.getLast?_concat]
  rw [hbody, readShape?_enclosed s (List.cons_ne_nil _ _) fun d hd => ⟨?_, ?_⟩, stripQuotes_quoted]
  · exact fun x hx => Option.some.inj hx ▸ (hquotes d hd).1
  · exact fun x hx => Option.some.inj (hlast.symm.trans hx) ▸ (hquotes d hd).2

/-! ## Nodes -/

theorem Word.isIdentifier (w : Word) : isIdentifier w.chars = true := by
  obtain ⟨c, cs, h⟩ := List.exists_cons_of_ne_nil w.nonempty
  have hall := w.identifier
  rw [h] at hall ⊢
  rw [Flowchart.isIdentifier, hall c List.mem_cons_self, Bool.true_and, List.all_eq_true]
  intro d hd
  rw [hall d (List.mem_cons_of_mem c hd)]
  rfl

/-- No character of a word opens a shape. -/
theorem Word.not_opensShape (w : Word) : ∀ c ∈ w.chars, (!opensShape c) = true := by
  intro c hc
  have hne : ∀ d ∈ Text.signs, (c == d) = false := fun d hd =>
    beq_eq_false_iff_ne.mpr (Text.ne_of_isIdentifierChar (w.identifier c hc) hd)
  simp [opensShape, isOpening, hne _ (show '[' ∈ Text.signs by decide),
    hne _ (show '(' ∈ Text.signs by decide), hne _ (show '{' ∈ Text.signs by decide),
    hne _ (show '>' ∈ Text.signs by decide)]

/-- **A printed node is read** as what it was printed for. -/
theorem readReference_print (n : PrintedNode) : readReference n.print = .ok n.ref := by
  rw [readReference, splitClasses_print]
  dsimp only
  cases hbody : n.body with
  | none =>
    have hbase : n.base = n.id.chars := by
      rw [PrintedNode.base, hbody]
      exact List.append_nil _
    have hsplit : Text.splitBefore? opensShape n.id.chars = none := by
      have hdrop : n.id.chars.dropWhile (fun c => !opensShape c) = [] :=
        List.dropWhile_eq_nil_iff.mpr n.id.not_opensShape
      rw [Text.splitBefore?, hdrop]
    rw [hbase, hsplit]
    simp only [n.id.isIdentifier, if_true, PrintedNode.ref, hbody, Option.map_none]
  | some b =>
    obtain ⟨s, label⟩ := b
    have hopens : opensShape s.outerOpening = true := by cases s <;> rfl
    have hbase : n.base = n.id.chars ++ PrintedNode.printBody (some (s, label)) := by
      rw [PrintedNode.base, hbody]
    have hcons : PrintedNode.printBody (some (s, label)) = s.outerOpening ::
        (s.opening.tail ++ '"' :: (label.chars ++ '"' :: s.closing)) :=
      congrArg (· ++ '"' :: (label.chars ++ '"' :: s.closing)) s.opening_eq
    have hsplit : Text.splitBefore? opensShape n.base =
        some (n.id.chars, PrintedNode.printBody (some (s, label))) := by
      rw [Text.splitBefore?, hbase, List.dropWhile_append_of_pos n.id.not_opensShape,
        List.takeWhile_append_of_pos n.id.not_opensShape, hcons]
      simp [hopens]
    have htrim : Text.trimChars (PrintedNode.printBody (some (s, label))) =
        PrintedNode.printBody (some (s, label)) := by
      have hsolid : isSolid s.outerOpening = true := by cases s <;> rfl
      exact trimChars_self (by rw [hcons]; simp)
        (fun c hc => by rw [hcons] at hc; exact Option.some.inj hc ▸ hsolid)
        PrintedNode.getLast?_printBody
    rw [hsplit]
    simp only [htrim, readShape?_print, n.id.trimChars_eq, n.id.isIdentifier, if_true,
      PrintedNode.ref, hbody, Option.map_some]

end Flowchart

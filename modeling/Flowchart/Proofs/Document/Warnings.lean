import Flowchart.Proofs.Document.Statements

/-!
# Skipped statements

A statement that is skipped leaves a warning with the number of its line and changes nothing else.
Neither the warnings nor the numbers of lines have any part in what other statements do, `run_eq`.
So a run of statements is two things that can be looked at apart: the builder without its warnings,
a function of the statements alone, and the warnings, one for every statement that is skipped.
-/

namespace Flowchart.Builder

variable {b b' : Builder} {s : Statement}

/-- The builder without its warnings. -/
def quiet (b : Builder) : Builder := { b with warnings := [] }

/-- Why a statement is skipped, if it is: it cannot be read, or it closes a block and none is
open. -/
def objection? (b : Builder) : Statement → Option Rejection
  | .rejected reason => some reason
  | .closeBlock => if b.openBlocks.isEmpty then some .endWithoutBlock else none
  | _ => none

/-- The warning about a statement on a given line, if it is skipped. -/
def note (b : Builder) (s : Nat × Statement) : List Diagnostic :=
  (b.objection? s.2).toList.map (Diagnostic.mk s.1)

/-- The warnings that statements leave when they are carried out one after the other. -/
def notes (b : Builder) : List (Nat × Statement) → List Diagnostic
  | [] => []
  | s :: rest => b.note s ++ (b.run s.1 s.2).notes rest

/-! ## One statement -/

theorem freeAutoId_quiet (b : Builder) (fuel n : Nat) :
    b.quiet.freeAutoId fuel n = b.freeAutoId fuel n := by
  induction fuel generalizing n with
  | zero => rfl
  | succ fuel ih =>
    have htaken : b.quiet.isTaken = b.isTaken := rfl
    rw [freeAutoId, freeAutoId, htaken, ih]

theorem foldl_mention_quiet (refs : List NodeRef) (b : Builder) : refs.foldl mention b =
    { refs.foldl mention b.quiet with warnings := b.warnings } := by
  induction refs generalizing b with
  | nil => rfl
  | cons r refs ih =>
    have hmention : (b.mention r).quiet = (b.quiet.mention r).quiet ∧
        (b.mention r).warnings = b.warnings := by
      simp only [mention, register, quiet]
      cases b.openBlocks <;> exact ⟨rfl, rfl⟩
    rw [List.foldl_cons, ih, hmention.1, hmention.2, List.foldl_cons, ih (b.quiet.mention r)]

/-- **One statement** does to a builder what it does to one without warnings and on any line, and
adds the warning about itself. -/
theorem run_eq (b : Builder) (line : Nat) (s : Statement) : b.run line s =
    { b.quiet.run 0 s with warnings := b.warnings ++ b.note (line, s) } := by
  cases s with
  | closeBlock =>
    simp only [run, closeBlock, note, objection?, quiet]
    cases b.openBlocks <;> simp
  | openBlock header =>
    have hfree := freeAutoId_quiet b (b.drafts.length + b.diagram.nodes.length) b.autoCount
    simp only [quiet] at hfree
    simp only [run, openBlock, note, objection?, quiet]
    cases header.id <;> simp [hfree]
  | direction d =>
    simp only [run, setDirection, note, objection?, quiet]
    cases b.openBlocks <;> simp
  | defineClasses style => cases style <;> simp [run, defineClasses, note, objection?, quiet]
  | assignClasses pairs => simp [run, note, objection?, quiet]
  | styleNodes style => cases style <;> simp [run, note, objection?, quiet]
  | styleLinks style =>
    cases style with
    | none => simp [run, note, objection?, quiet]
    | some style =>
      obtain ⟨selection | indices, style⟩ := style <;>
        simp [run, styleLinks, note, objection?, quiet]
  | ignored => simp [run, note, objection?, quiet]
  | chain c =>
    rw [run, addChain, foldl_mention_quiet]
    simp [run, addChain, note, objection?]
  | rejected reason => simp [run, note, objection?, quiet]

theorem quiet_run (b : Builder) (line : Nat) (s : Statement) :
    (b.run line s).quiet = (b.quiet.run 0 s).quiet := by rw [run_eq]; rfl

theorem warnings_run (b : Builder) (line : Nat) (s : Statement) :
    (b.run line s).warnings = b.warnings ++ b.note (line, s) := by rw [run_eq]

/-- A statement that is skipped leaves everything but the warnings as it was. -/
theorem quiet_run_of_objection {reason : Rejection} (line : Nat)
    (h : b.objection? s = some reason) :
    (b.run line s).quiet = b.quiet := by
  cases s with
  | closeBlock =>
    rw [objection?] at h
    cases hopen : b.openBlocks with
    | nil => simp only [run, closeBlock, hopen, quiet]
    | cons i rest =>
      rw [hopen] at h
      cases h
  | rejected reason => rfl
  | _ => cases h

/-! ## A run of statements -/

variable {l l' : List (Nat × Statement)}

/-- Neither the warnings so far nor the numbers of lines have a part in what statements do. -/
theorem quiet_runAll (h : b.quiet = b'.quiet) (hl : l.map Prod.snd = l'.map Prod.snd) :
    (b.runAll l).quiet = (b'.runAll l').quiet := by
  induction l generalizing b b' l' with
  | nil =>
    obtain rfl := List.map_eq_nil_iff.mp hl.symm
    exact h
  | cons s l ih =>
    obtain ⟨s', l', rfl, hs, hl⟩ := List.map_eq_cons_iff.mp hl.symm
    rw [runAll_cons, runAll_cons]
    refine ih ?_ hl.symm
    rw [quiet_run, quiet_run b', h, hs]

/-- The warnings after a run are those before it and one for every statement that was skipped. -/
theorem warnings_runAll (b : Builder) (l : List (Nat × Statement)) :
    (b.runAll l).warnings = b.warnings ++ b.notes l := by
  induction l generalizing b with
  | nil => exact (List.append_nil _).symm
  | cons s l ih => rw [runAll_cons, ih, warnings_run, notes, List.append_assoc]

theorem note_congr (h : b.quiet = b'.quiet) (s : Nat × Statement) : b.note s = b'.note s := by
  have hopen : b.openBlocks = b'.openBlocks :=
    show b.quiet.openBlocks = b'.quiet.openBlocks by rw [h]
  rw [note, note]
  cases s.2 with
  | closeBlock => rw [objection?, objection?, hopen]
  | _ => rfl

theorem notes_congr (h : b.quiet = b'.quiet) (l : List (Nat × Statement)) :
    b.notes l = b'.notes l := by
  induction l generalizing b b' with
  | nil => rfl
  | cons s l ih =>
    have hrun : (b.run s.1 s.2).quiet = (b'.run s.1 s.2).quiet := by
      rw [quiet_run, quiet_run b', h]
    rw [notes, notes, note_congr h, ih hrun]

/-- Warnings come in the order of the statements they are about. -/
theorem lines_notes (b : Builder) (l : List (Nat × Statement)) :
    ((b.notes l).map Diagnostic.line).Sublist (l.map Prod.fst) := by
  induction l generalizing b with
  | nil => exact List.Sublist.slnil
  | cons s l ih =>
    rw [notes, note, List.map_append, List.map_cons]
    cases b.objection? s.2 with
    | none => exact (ih _).cons _
    | some reason => exact (ih _).cons_cons _

/-- Moving statements to other lines moves their warnings. -/
theorem notes_renumber (f : Nat → Nat) (b : Builder) (l : List (Nat × Statement)) :
    b.notes (l.map fun s => (f s.1, s.2)) =
      (b.notes l).map fun w => { w with line := f w.line } := by
  induction l generalizing b with
  | nil => rfl
  | cons s l ih =>
    have hnote : b.note (f s.1, s.2) = (b.note s).map fun w => { w with line := f w.line } := by
      rw [note, note, List.map_map]
      rfl
    have hrun : (b.run (f s.1) s.2).quiet = (b.run s.1 s.2).quiet := by
      rw [quiet_run, quiet_run b s.1]
    rw [List.map_cons, notes, ih, notes, List.map_append, hnote, notes_congr hrun]

section Rejected

variable (kept : Nat → Bool)

/-- Statements that cannot be read may be left out. -/
theorem quiet_runAll_filter (hl : ∀ s ∈ l, kept s.1 = false → ∃ reason, s.2 = .rejected reason)
    (b : Builder) : (b.runAll (l.filter fun s => kept s.1)).quiet = (b.runAll l).quiet := by
  induction l generalizing b with
  | nil => rfl
  | cons s l ih =>
    have hrest := ih fun t ht => hl t (List.mem_cons_of_mem s ht)
    rw [runAll_cons, List.filter_cons]
    cases hkept : kept s.1 with
    | true => exact hrest _
    | false =>
      obtain ⟨reason, hs⟩ := hl s List.mem_cons_self hkept
      have hquiet : (b.run s.1 s.2).quiet = b.quiet := by
        rw [hs]
        rfl
      rw [quiet_runAll hquiet rfl]
      exact hrest b

/-- If they are left out, the warnings about other statements stay as they are. -/
theorem notes_filter (hl : ∀ s ∈ l, kept s.1 = false → ∃ reason, s.2 = .rejected reason)
    (b : Builder) :
    (b.notes l).filter (fun w => kept w.line) = b.notes (l.filter fun s => kept s.1) ∧
      ((b.notes l).filter fun w => !kept w.line).map (fun w => (w.line, .rejected w.reason)) =
        l.filter fun s => !kept s.1 := by
  induction l generalizing b with
  | nil => exact ⟨rfl, rfl⟩
  | cons s l ih =>
    obtain ⟨hold, hnew⟩ := ih (fun t ht => hl t (List.mem_cons_of_mem s ht)) (b.run s.1 s.2)
    have hline : ∀ w ∈ b.note s, w.line = s.1 := by
      intro w hw
      obtain ⟨reason, -, rfl⟩ := List.mem_map.mp hw
      rfl
    rw [notes, List.filter_append, List.filter_append, List.map_append, List.filter_cons,
      List.filter_cons, hold, hnew]
    cases hkept : kept s.1 with
    | true =>
      have hall : (b.note s).filter (fun w => kept w.line) = b.note s :=
        List.filter_eq_self.mpr fun w hw => by rw [hline w hw, hkept]
      have hnone : (b.note s).filter (fun w => !kept w.line) = [] :=
        List.filter_eq_nil_iff.mpr fun w hw => by simp [hline w hw, hkept]
      rw [hall, hnone]
      exact ⟨rfl, rfl⟩
    | false =>
      obtain ⟨reason, hs⟩ := hl s List.mem_cons_self hkept
      have hnote : b.note s = [⟨s.1, reason⟩] := by
        rw [note, hs]
        rfl
      have hquiet : (b.run s.1 s.2).quiet = b.quiet := by
        rw [hs]
        rfl
      rw [hnote, notes_congr hquiet]
      simp [hkept, ← hs]

end Rejected

/-- The diagram does not depend on the warnings. -/
theorem finish_congr (h : b.quiet = b'.quiet) : b.finish = b'.finish :=
  show b.quiet.finish = b'.quiet.finish by rw [h]

end Flowchart.Builder

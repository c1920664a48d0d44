import BuildChain.Directory
import Mathlib.Tactic.Common

/-!
# Writing to a file and reading it again

Writing to a file that can be read succeeds. It leaves every way through the directory as it was,
since files are no steps on a way, so the same path then leads to the new text.
-/

namespace BuildChain.Directory

variable {d : Directory} {path : String}

theorem lookup_filter_ne (nodes : List (Place × Node)) (p q : Place) :
    (nodes.filter fun e => e.1 != p).lookup q = if q = p then none else nodes.lookup q := by
  induction nodes with
  | nil => simp
  | cons e rest ih =>
    by_cases hp : e.1 = p
    · rw [List.filter_cons_of_neg (by simpa using hp), ih, List.lookup_cons]
      by_cases hq : q = p
      · rw [if_pos hq, if_pos hq]
      · rw [beq_eq_false_iff_ne.mpr (hp ▸ hq)]
    · rw [List.filter_cons_of_pos (by simpa using hp), List.lookup_cons, List.lookup_cons, ih]
      by_cases hq : q = p
      · rw [beq_eq_false_iff_ne.mpr (hq ▸ Ne.symm hp), if_pos hq]
      · rw [if_neg hq, if_neg hq]

theorem node?_put (d : Directory) (p : Place) (n : Node) (q : Place) :
    (d.put p n).node? q = if q = p then some n else d.node? q := by
  rw [node?, put, List.lookup_append, lookup_filter_ne]
  by_cases h : q = p
  · rw [if_pos h, if_pos h, Option.none_or, List.lookup_cons, beq_iff_eq.mpr h]
  · rw [if_neg h, if_neg h, List.lookup_cons, beq_eq_false_iff_ne.mpr h]
    exact Option.or_none

/-- A file is no way to anywhere, whatever it holds. -/
theorem step_put {p : Place} {bytes : ByteArray} (h : d.node? p = some (.file bytes))
    (bytes' : ByteArray) : (d.put p (.file bytes')).step = d.step := by
  funext q name
  unfold step
  rw [node?_put]
  by_cases hq : q = p
  · rw [if_pos hq, hq, h]
  · rw [if_neg hq]

theorem locate_put {p : Place} {bytes : ByteArray} (h : d.node? p = some (.file bytes))
    (bytes' : ByteArray) (path : String) :
    (d.put p (.file bytes')).locate path = d.locate path := by
  rw [locate, locate, step_put h]

/-- A path leads to a file when there is one at its end and it does not ask for a folder. -/
theorem find_eq_file {bytes : ByteArray} : d.find path = .ok (.file bytes) ↔
    asksForFolder path = false ∧
      ∃ p, d.locate path = .ok p ∧ d.node? p = some (.file bytes) := by
  unfold find
  cases hlocate : d.locate path with
  | error e => simp [bind, Except.bind]
  | ok p =>
    cases hnode : d.node? p with
    | none => simp [bind, Except.bind, hnode]
    | some node =>
      cases node with
      | folder => simp [bind, Except.bind, hnode]
      | file bytes' => cases hasks : asksForFolder path <;> simp [bind, Except.bind, hnode]

/-- What it takes for a text to be read. -/
theorem readText_eq_ok {text : String} : d.readText path = .ok text ↔
    ∃ bytes, d.find path = .ok (.file bytes) ∧ String.fromUTF8? bytes = some text := by
  unfold readText read
  cases hfind : d.find path with
  | error e => simp [bind, Except.bind]
  | ok node =>
    cases node with
    | folder => simp [bind, Except.bind]
    | file bytes => cases hutf : String.fromUTF8? bytes <;> simp [bind, Except.bind, hutf]

/-- A file that can be read can be written, and the same path then leads to what was written. -/
theorem find_writeText {text : String} (h : d.readText path = .ok text) (text' : String) :
    ∃ d', d.writeText path text' = .ok d' ∧ d'.find path = .ok (.file text'.toUTF8) := by
  obtain ⟨bytes, hfind, -⟩ := readText_eq_ok.mp h
  obtain ⟨hasks, p, hlocate, hnode⟩ := find_eq_file.mp hfind
  refine ⟨d.put p (.file text'.toUTF8), ?_, find_eq_file.mpr ⟨hasks, p, ?_, ?_⟩⟩
  · simp [writeText, write, hasks, hlocate, hnode, bind, Except.bind]
  · rw [locate_put hnode, hlocate]
  · rw [node?_put, if_pos rfl]

/-- Writing changes what stands at the end of the path and nothing else. -/
theorem write_eq_ok {d' : Directory} {bytes : ByteArray} (h : d.write path bytes = .ok d') :
    ∃ p, d.locate path = .ok p ∧ d' = d.put p (.file bytes) := by
  unfold write at h
  cases hasks : asksForFolder path with
  | true =>
    -- the path is refused, wherever the way to its end leads
    simp only [hasks, if_true, bind, Except.bind] at h
    repeat' split at h
    all_goals cases h
  | false =>
    cases hlocate : d.locate path with
    | error e => simp [hasks, hlocate, bind, Except.bind] at h
    | ok p =>
      simp only [hasks, hlocate, bind, Except.bind, Bool.false_eq_true, if_false] at h
      split at h
      · cases h
      all_goals
        cases h
        exact ⟨p, rfl, rfl⟩

end BuildChain.Directory

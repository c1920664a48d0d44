import BuildChain.Proofs.Text.Trim
import BuildChain.Text.Lines

/-!
# The pieces and the lines of a text

A text is its pieces with a line feed after every piece but the last. The lines are those pieces
without the carriage returns in front of a line feed, and a last piece that is empty is no line.
-/

namespace BuildChain.Text

/-! ## Pieces -/

theorem pieces_cons (sep c : Char) (cs : List Char) :
    pieces sep (c :: cs) = if c = sep then [] :: pieces sep cs
      else match pieces sep cs with
        | [] => [[c]]
        | piece :: rest => (c :: piece) :: rest := rfl

theorem pieces_eq_splitOn (sep : Char) (cs : List Char) : pieces sep cs = cs.splitOn sep := by
  induction cs with
  | nil => rfl
  | cons c cs ih =>
    rw [pieces_cons, ih, List.splitOn_cons_eq_if_modifyHead]
    by_cases h : c = sep
    · simp [h]
    · obtain ⟨piece, rest, hp⟩ := List.exists_cons_of_ne_nil (List.splitOn_ne_nil sep cs)
      simp [h, hp]

theorem pieces_intercalate {sep : Char} {ps : List (List Char)} (hne : ps ≠ [])
    (h : ∀ p ∈ ps, sep ∉ p) : pieces sep ([sep].intercalate ps) = ps := by
  rw [pieces_eq_splitOn]
  exact List.splitOn_intercalate sep h hne

theorem intercalate_pieces (sep : Char) (cs : List Char) :
    [sep].intercalate (pieces sep cs) = cs := by
  rw [pieces_eq_splitOn, List.intercalate_splitOn]

theorem intercalate_concat (sep : List Char) (init : List (List Char)) (last : List Char) :
    sep.intercalate (init ++ [last]) = init.flatMap (· ++ sep) ++ last := by
  induction init with
  | nil => simp
  | cons p ps ih =>
    rw [List.cons_append, List.intercalate_cons_of_ne_nil (by simp), ih, List.flatMap_cons]
    simp

theorem pieces_flatMap {sep : Char} {init : List (List Char)} {last : List Char}
    (hinit : ∀ p ∈ init, sep ∉ p) (hlast : sep ∉ last) :
    pieces sep (init.flatMap (· ++ [sep]) ++ last) = init ++ [last] := by
  rw [← intercalate_concat, pieces_eq_splitOn]
  apply List.splitOn_intercalate
  · intro p hp
    rcases List.mem_append.mp hp with hp | hp
    · exact hinit p hp
    · rw [List.mem_singleton.mp hp]
      exact hlast
  · simp

theorem not_mem_of_mem_pieces {sep : Char} {cs p : List Char} (hp : p ∈ pieces sep cs) :
    sep ∉ p := by
  induction cs generalizing p with
  | nil =>
    rw [show pieces sep [] = [[]] from rfl, List.mem_singleton] at hp
    simp [hp]
  | cons c cs ih =>
    rw [pieces_cons] at hp
    by_cases hc : c = sep
    · rw [if_pos hc] at hp
      rcases List.mem_cons.mp hp with rfl | hp
      · simp
      · exact ih hp
    · rw [if_neg hc] at hp
      cases hps : pieces sep cs with
      | nil =>
        rw [pieces_eq_splitOn] at hps
        exact absurd hps (List.splitOn_ne_nil sep cs)
      | cons piece rest =>
        rw [hps] at hp ih
        rcases List.mem_cons.mp hp with rfl | hp
        · have h := ih List.mem_cons_self
          simp [h, Ne.symm hc]
        · exact ih (List.mem_cons_of_mem _ hp)

/-- Every list of characters is closed pieces followed by an open one. -/
theorem exists_pieces (sep : Char) (cs : List Char) :
    ∃ init last, pieces sep cs = init ++ [last] ∧ cs = init.flatMap (· ++ [sep]) ++ last := by
  have hne : pieces sep cs ≠ [] := by
    rw [pieces_eq_splitOn]
    exact List.splitOn_ne_nil sep cs
  refine ⟨(pieces sep cs).dropLast, (pieces sep cs).getLast hne,
    (List.dropLast_concat_getLast hne).symm, ?_⟩
  rw [← intercalate_concat, List.dropLast_concat_getLast, pieces_eq_splitOn,
    List.intercalate_splitOn]

/-! ## Carriage returns -/

theorem dropReturn_concat (cs : List Char) : dropReturn (cs ++ ['\r']) = cs := by
  simp [dropReturn]

theorem dropReturn_of_ne {cs : List Char} (h : cs.getLast? ≠ some '\r') : dropReturn cs = cs := by
  simp [dropReturn, h]

theorem dropReturn_append {cs : List Char} (h : cs.getLast? = some '\r') :
    dropReturn cs ++ ['\r'] = cs := by
  obtain ⟨init, rfl⟩ := List.getLast?_eq_some_iff.mp h
  rw [dropReturn_concat]

theorem trimChars_dropReturn (cs : List Char) : trimChars (dropReturn cs) = trimChars cs := by
  by_cases h : cs.getLast? = some '\r'
  · conv_rhs => rw [← dropReturn_append h]
    exact (trimChars_append_right (by simp [isSpace]) _).symm
  · rw [dropReturn_of_ne h]

theorem hasReturnFeed_iff {cs : List Char} :
    hasReturnFeed cs = true ↔ ∃ a b, cs = a ++ '\r' :: '\n' :: b := by
  constructor
  · intro h
    fun_induction hasReturnFeed cs with
    | case1 rest => exact ⟨[], rest, rfl⟩
    | case2 c cs _ ih =>
      obtain ⟨a, b, rfl⟩ := ih h
      exact ⟨c :: a, b, rfl⟩
    | case3 => cases h
  · rintro ⟨a, b, rfl⟩
    induction a with
    | nil => rfl
    | cons c a ih =>
      rw [List.cons_append]
      unfold hasReturnFeed
      split
      · rfl
      · rename_i heq
        cases heq
        exact ih
      · rename_i heq
        cases heq

/-! ## What the pieces tell -/

theorem eq_of_pieces {sep : Char} {cs last : List Char} {init : List (List Char)}
    (h : pieces sep cs = init ++ [last]) : cs = init.flatMap (· ++ [sep]) ++ last := by
  obtain ⟨init', last', h', hcs⟩ := exists_pieces sep cs
  obtain ⟨rfl, hlast⟩ := List.append_inj' (h.symm.trans h') rfl
  rw [hcs, List.singleton_inj.mp hlast]

/-- The last line of a text is closed when nothing stands behind the last line feed. -/
theorem endsClosed_iff_of_pieces {s : String} {last : List Char} {init : List (List Char)}
    (h : pieces '\n' s.toList = init ++ [last]) : endsClosed s = true ↔ last = [] := by
  have hs := eq_of_pieces h
  rcases List.eq_nil_or_concat last with rfl | ⟨front, c, rfl⟩
  · rcases List.eq_nil_or_concat init with rfl | ⟨before, p, rfl⟩
    · simp [endsClosed, hs]
    · simp [endsClosed, hs, List.concat_eq_append]
  · have hc : c ≠ '\n' := by
      rintro rfl
      have hmem : front.concat '\n' ∈ pieces '\n' s.toList := h ▸ by simp
      exact not_mem_of_mem_pieces hmem (by simp)
    simp [endsClosed, hs, List.concat_eq_append, hc]

/-- What stands before the line feed of a piece ends as the piece does. -/
theorem getLast?_piece (before : List (List Char)) (p : List Char) :
    (before.flatMap (· ++ ['\n']) ++ p).getLast? = some '\r' ↔ p.getLast? = some '\r' := by
  rw [List.getLast?_append]
  cases hp : p.getLast? with
  | some c => simp
  | none =>
    simp only [Option.none_or, reduceCtorEq, iff_false]
    intro h
    rcases List.eq_nil_or_concat before with rfl | ⟨init, q, rfl⟩
    · cases h
    · simp [List.concat_eq_append] at h

/-- A carriage return stands before a line feed when a piece that is closed ends with one. -/
theorem hasReturnFeed_iff_of_pieces {cs last : List Char} {init : List (List Char)}
    (h : pieces '\n' cs = init ++ [last]) :
    hasReturnFeed cs = true ↔ ∃ p ∈ init, p.getLast? = some '\r' := by
  rw [hasReturnFeed_iff]
  constructor
  · rintro ⟨a, b, rfl⟩
    obtain ⟨before, p, hpieces, ha⟩ := exists_pieces '\n' (a ++ ['\r'])
    have hne : pieces '\n' b ≠ [] := by
      rw [pieces_eq_splitOn]
      exact List.splitOn_ne_nil '\n' b
    have hcut : pieces '\n' (a ++ '\r' :: '\n' :: b) = (before ++ [p]) ++ pieces '\n' b := by
      rw [← hpieces, pieces_eq_splitOn, pieces_eq_splitOn, pieces_eq_splitOn,
        ← List.splitOn_append_cons_self, List.append_assoc, List.singleton_append]
    have hinit : init = before ++ [p] ++ (pieces '\n' b).dropLast := by
      rw [← List.dropLast_append_of_ne_nil hne, ← hcut, h, List.dropLast_concat]
    refine ⟨p, by simp [hinit], (getLast?_piece before p).mp ?_⟩
    rw [← ha, List.getLast?_concat]
  · rintro ⟨p, hp, hlast⟩
    obtain ⟨q, rfl⟩ := List.getLast?_eq_some_iff.mp hlast
    obtain ⟨before, after, rfl⟩ := List.append_of_mem hp
    refine ⟨before.flatMap (· ++ ['\n']) ++ q, after.flatMap (· ++ ['\n']) ++ last, ?_⟩
    rw [eq_of_pieces h]
    simp

/-! ## Lines -/

theorem linesOfPieces_concat (init : List (List Char)) (last : List Char) :
    linesOfPieces (init ++ [last]) =
      init.map dropReturn ++ if last.isEmpty then [] else [last] := by
  simp [linesOfPieces]

/-- No line holds a line feed. -/
theorem not_mem_of_mem_lines {s l : String} (hl : l ∈ lines s) : '\n' ∉ l.toList := by
  obtain ⟨init, last, hp, -⟩ := exists_pieces '\n' s.toList
  have hno : ∀ p ∈ init ++ [last], '\n' ∉ p := fun p hm => not_mem_of_mem_pieces (hp ▸ hm)
  rw [lines, hp, linesOfPieces_concat] at hl
  obtain ⟨cs, hcs, rfl⟩ := List.mem_map.mp hl
  rw [String.toList_ofList]
  rcases List.mem_append.mp hcs with h | h
  · obtain ⟨p, hp, rfl⟩ := List.mem_map.mp h
    have hsub : dropReturn p <+: p := by
      unfold dropReturn
      split
      · exact List.dropLast_prefix p
      · exact List.prefix_rfl
    exact fun hm => hno p (List.mem_append_left _ hp) (hsub.subset hm)
  · by_cases hlast : last.isEmpty = true
    · simp [hlast] at h
    · rw [if_neg hlast, List.mem_singleton] at h
      subst h
      exact hno _ (by simp)

/-- A text without a line feed is its only line. -/
theorem lines_eq_singleton {s : String} (hne : s.toList ≠ []) (hfeed : '\n' ∉ s.toList) :
    lines s = [s] := by
  have hpieces : pieces '\n' s.toList = [] ++ [s.toList] := by
    have hnone : ∀ p ∈ ([] : List (List Char)), '\n' ∉ p := by simp
    simpa using pieces_flatMap hnone hfeed
  rw [lines, hpieces, linesOfPieces_concat, if_neg (by simpa using hne)]
  simp

/-- A text of one line that no line feed closes is that line. -/
theorem lines_of_length_eq_one {s : String} (hlen : (lines s).length = 1)
    (hlast : s.toList.getLast? ≠ some '\n') : lines s = [s] ∧ '\n' ∉ s.toList := by
  obtain ⟨init, last, hpieces, hs⟩ := exists_pieces '\n' s.toList
  have hne : last ≠ [] := by
    rintro rfl
    rw [List.append_nil] at hs
    rcases List.eq_nil_or_concat init with rfl | ⟨front, p, rfl⟩
    · rw [lines, hpieces, linesOfPieces_concat] at hlen
      simp at hlen
    · exact hlast (by rw [hs]; simp [List.concat_eq_append])
  have hlines : lines s = (init.map dropReturn ++ [last]).map String.ofList := by
    rw [lines, hpieces, linesOfPieces_concat, if_neg (by simpa using hne)]
  have hinit : init = [] := by
    rw [hlines] at hlen
    simpa using hlen
  subst hinit
  have hwhole : s.toList = last := hs
  constructor
  · rw [hlines, ← hwhole]
    simp
  · rw [hwhole]
    have hmem : last ∈ pieces '\n' s.toList := by
      rw [hpieces]
      simp
    exact not_mem_of_mem_pieces hmem

end BuildChain.Text

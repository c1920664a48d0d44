import BuildChain.Proofs.Chain.Naming

/-!
# Lines and keys under the edits of a save

A save gives an assignment a new value or comments it out, and finds what it looks for by its key.
The first edit leaves an active line with the same key, the second one the same assignment out of
force, or a remark where the key holds white space. Keys that lead somewhere are told apart by what
they lead to.
-/

namespace BuildChain

/-! ## Edited lines -/

namespace Assignment

/-- What the edits of a save make of a line that holds an assignment. -/
structure Endures (l : String) (a : Assignment) : Prop where
  /-- With a new value the line is active under the key that it had. The key of a line that is
  commented out more than once may start like a comment, and then it is no key of an active line. -/
  rewritten : (a.active = true ∨ a.key.toList.head? ≠ some '#') → ∀ value,
    ofLine? (Text.indent l ++ Line.assign a.key value) = some ⟨a.key, Text.trim value, true⟩
  /-- Commented out, an active line is the same assignment out of force, or a plain comment. -/
  commented : a.active = true →
    if a.key.toList.any Text.isSpace then
      Line.isPlainComment (Text.indent l ++ "#" ++ Text.trimStart l) = true
    else ofLine? (Text.indent l ++ "#" ++ Text.trimStart l) = some ⟨a.key, a.value, false⟩

theorem isKey_of_rewritable {l : String} {a : Assignment} (h : ofLine? l = some a)
    (hkey : a.active = true ∨ a.key.toList.head? ≠ some '#') : IsKey a.key := by
  rcases hkey with hactive | hhead
  · exact isKey_of_active h hactive
  · exact isKey_of_head h hhead

end Assignment

namespace Line

theorem head?_commentOut (l : String) :
    (Text.trimStartChars (commentOut l).toList).head? = some '#' := by
  have hhash : Text.isSpace '#' = false := by decide
  rw [toList_commentOut, Text.trimStartChars_append (indent_isSpace l)]
  simp [Text.trimStartChars, hhash]

theorem isPlainComment_commentOut_iff (l : String) :
    isPlainComment (commentOut l) = true ↔ Assignment.ofLine? (commentOut l) = none := by
  rw [isPlainComment, head?_commentOut, beq_self_eq_true, Bool.true_and, Option.isNone_iff_eq_none]

end Line

theorem Assignment.endures {l : String} {a : Assignment} (h : ofLine? l = some a) :
    Endures l a where
  rewritten hkey value :=
    ofLine?_assign (Line.indent_isSpace l) (isKey_of_rewritable h hkey) value (by simp)
  commented hactive := by
    have hread := Line.ofLine?_commentOut h hactive
    split
    · rename_i hspace
      exact (Line.isPlainComment_commentOut_iff l).mpr (hread.trans (if_pos hspace))
    · rename_i hspace
      exact hread.trans (if_neg hspace)

/-! ## Keys and what they lead to -/

namespace Route

/-- A key that leads somewhere can be told from where it leads to. -/
theorem key_ofKey {key : String} (h : ofKey key ≠ nowhere) : (ofKey key).key = key := by
  cases hroute : ofKey key with
  | global k => exact ofKey_eq_global hroute
  | flag suite => exact (ofKey_eq_flag_iff.mp hroute).2.symm
  | property name suffix => exact (ofKey_eq_property hroute).1.symm
  | nowhere => exact absurd hroute h

/-- What the route of a key says about the key. -/
structure Distinguishes (key : String) : Prop where
  /-- No other key has the route. -/
  injective : ofKey key ≠ nowhere → ∀ key', ofKey key' = ofKey key → key' = key
  /-- Not even up to the case of section names is there another key, except for the case. -/
  places : ofKey key ≠ nowhere → ∀ key', (ofKey key').samePlace (ofKey key) = true →
    Text.sameName key' key = true
  ofProperty : ∀ name suffix, ofKey key = property name suffix →
    key = propertyKey name suffix ∧ '.' ∉ name.toList
  ofFlag : ∀ suite, ofKey key = flag suite → key = flagKey suite
  /-- The key under which a property of a section is written is not read as a property of another
  section, nor as another property, whatever else it may be read as. -/
  own : ∀ name suffix, '.' ∉ name.toList → key = propertyKey name suffix →
    ∀ name' suffix', ofKey key = property name' suffix' → name' = name ∧ suffix' = suffix

theorem distinguishes (key : String) : Distinguishes key where
  injective h key' hsame := by
    rw [← key_ofKey h, ← hsame, key_ofKey (hsame ▸ h)]
  places h key' hsame := by
    have hname := sameName_key hsame h
    rwa [key_ofKey h] at hname
  ofProperty _ _ h := ofKey_eq_property h
  ofFlag _ h := (ofKey_eq_flag_iff.mp h).2
  own name suffix hdot hkey name' suffix' h := by
    obtain ⟨hkey', hdot'⟩ := ofKey_eq_property h
    have hchars : name'.toList ++ '.' :: suffix'.toList = name.toList ++ '.' :: suffix.toList := by
      rw [← toList_propertyKey, ← toList_propertyKey, ← hkey', ← hkey]
    obtain ⟨hname, hsuffix⟩ := eq_of_append_dot hdot' hdot hchars
    exact ⟨String.toList_inj.mp hname, String.toList_inj.mp hsuffix⟩

end Route

/-- The edits of a save leave assignments what they are, and keys that lead somewhere lead to
different things. -/
theorem Line.stable_under_edits :
    (∀ l a, Assignment.ofLine? l = some a → a.Endures l) ∧ ∀ key, Route.Distinguishes key :=
  ⟨fun _ _ h => Assignment.endures h, Route.distinguishes⟩

/-- A line that is commented out twice, an active one that becomes a remark when it is commented
out, and the key of a property that could be taken for the key of a flag. -/
theorem Line.stable_under_edits_spaced_key :
    (Assignment.ofLine? "\t##a.mode = source" = some ⟨"a.mode", "source", false⟩ ∧
        Assignment.Endures "\t##a.mode = source" ⟨"a.mode", "source", false⟩) ∧
      (Assignment.ofLine? "  a.build args = -x=1" = some ⟨"a.build args", "-x=1", true⟩ ∧
        Assignment.Endures "  a.build args = -x=1" ⟨"a.build args", "-x=1", true⟩) ∧
      Route.Distinguishes "tests..run" := by
  have hcommented : Assignment.ofLine? "\t##a.mode = source" =
      some ⟨"a.mode", "source", false⟩ := by decide +kernel
  have hactive : Assignment.ofLine? "  a.build args = -x=1" =
      some ⟨"a.build args", "-x=1", true⟩ := by decide +kernel
  exact ⟨⟨hcommented, stable_under_edits.1 _ _ hcommented⟩,
    ⟨hactive, stable_under_edits.1 _ _ hactive⟩, stable_under_edits.2 _⟩

end BuildChain

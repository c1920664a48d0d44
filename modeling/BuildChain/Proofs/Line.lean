import BuildChain.Line
import BuildChain.Proofs.Text.Fold
import BuildChain.Proofs.Text.Split
import BuildChain.Proofs.Text.Trim

/-!
# Reading back what is put on a line

An assignment that is written onto a line is read back from it: with the key that the line had, with
the value that was written, and active. A line that is commented out holds no active assignment.
Keys and routes determine each other where a key leads somewhere.
-/

namespace BuildChain

namespace Assignment

/-- The keys that an active line can have. -/
structure IsKey (key : String) : Prop where
  nonempty : key.toList ≠ []
  tight : Text.Tight key.toList
  not_mem : '=' ∉ key.toList
  head : key.toList.head? ≠ some '#'

/-- The case of the letters does not matter for being a key. -/
theorem IsKey.congr {key key' : String} (h : IsKey key) (hname : Text.sameName key key' = true) :
    IsKey key' := by
  have hsame := Text.sameName_iff.mp hname
  rw [Text.fold, Text.fold] at hsame
  obtain ⟨hne, ⟨hhead, hlast⟩, hmem, hhash⟩ := h
  have hheads := congrArg List.head? hsame
  have hlasts := congrArg List.getLast? hsame
  rw [List.head?_map, List.head?_map] at hheads
  rw [List.getLast?_map, List.getLast?_map] at hlasts
  refine ⟨?_, ⟨?_, ?_⟩, ?_, ?_⟩
  · rintro hnil
    rw [hnil, List.map_nil, List.map_eq_nil_iff] at hsame
    exact hne hsame
  · intro c hc
    rw [hc, Option.map_some, Option.map_eq_some_iff] at hheads
    obtain ⟨d, hd, heq⟩ := hheads
    rw [← Text.isSpace_toLower, ← heq, Text.isSpace_toLower]
    exact hhead d hd
  · intro c hc
    rw [hc, Option.map_some, Option.map_eq_some_iff] at hlasts
    obtain ⟨d, hd, heq⟩ := hlasts
    rw [← Text.isSpace_toLower, ← heq, Text.isSpace_toLower]
    exact hlast d hd
  · rw [Text.sameName_comm] at hname
    exact fun hm => hmem (Text.mem_of_sameName hname (by decide) hm)
  · rw [Text.sameName_comm] at hname
    exact fun hc => hhash (Text.head?_of_sameName hname (by decide) hc)

/-! ## What is read from a line -/

/-- Only the trimmed line counts. -/
theorem ofLine?_congr {l l' : String}
    (h : Text.trimChars l.toList = Text.trimChars l'.toList) : ofLine? l = ofLine? l' := by
  simp only [ofLine?, h]

theorem ofBody?_eq_some {active : Bool} {body : List Char} {a : Assignment}
    (h : ofBody? active body = some a) :
    ∃ left right, body = left ++ '=' :: right ∧ '=' ∉ left ∧
      a.key.toList = Text.trimChars left ∧ Text.trimChars left ≠ [] ∧
      a.value.toList = Text.trimChars right ∧ a.active = active := by
  unfold ofBody? at h
  split at h
  · cases h
  · rename_i left right hsplit
    obtain ⟨hbody, hleft⟩ := Text.splitFirst_eq_some hsplit
    dsimp only at h
    split at h
    · cases h
    · rename_i hcond
      cases h
      simp only [Bool.or_eq_true, not_or, List.isEmpty_iff] at hcond
      exact ⟨left, right, hbody, hleft, by simp, hcond.1, by simp, rfl⟩

theorem tight_value {l : String} {a : Assignment} (h : ofLine? l = some a) :
    Text.trim a.value = a.value := by
  have htight : ∀ {active : Bool} {body : List Char}, ofBody? active body = some a →
      Text.trim a.value = a.value := by
    intro active body hb
    obtain ⟨_, right, _, _, _, _, hvalue, _⟩ := ofBody?_eq_some hb
    rw [← String.toList_inj, Text.toList_trim, hvalue, Text.trimChars_trimChars]
  unfold ofLine? at h
  split at h
  · exact htight h
  · exact htight h

theorem isKey_of_active {l : String} {a : Assignment} (h : ofLine? l = some a)
    (hact : a.active = true) : IsKey a.key := by
  unfold ofLine? at h
  split at h
  · obtain ⟨_, _, _, _, _, _, _, hfalse⟩ := ofBody?_eq_some h
    rw [hact] at hfalse
    cases hfalse
  · rename_i hhash
    obtain ⟨left, right, hbody, hleft, hkey, hne, _, _⟩ := ofBody?_eq_some h
    refine ⟨hkey ▸ hne, hkey ▸ Text.tight_trimChars left, ?_, ?_⟩
    · rw [hkey]
      exact fun hm => hleft (Text.mem_of_mem_trimChars hm)
    -- the trimmed line starts with the first character of its key
    · cases left with
      | nil => exact absurd rfl hne
      | cons c cs =>
        have hc : Text.isSpace c = false := by
          apply (Text.tight_trimChars l.toList).head c
          rw [hbody]
          rfl
        have hhead : Text.trimChars (c :: cs) = c :: Text.trimEndChars cs := by
          rw [Text.trimChars, show Text.trimStartChars (c :: cs) = c :: cs by
            simp [Text.trimStartChars, hc]]
          exact Text.trimEndChars_append_cons hc [] cs
        rw [hkey, hhead]
        rintro heq
        cases heq
        exact hhash _ hbody

/-- A key that is read is a key again unless it starts like a comment, as the key of a line that is
commented out twice may. -/
theorem isKey_of_head {l : String} {a : Assignment} (h : ofLine? l = some a)
    (hhead : a.key.toList.head? ≠ some '#') : IsKey a.key := by
  have hbody : ∃ active body, ofBody? active body = some a := by
    unfold ofLine? at h
    split at h
    · exact ⟨_, _, h⟩
    · exact ⟨_, _, h⟩
  obtain ⟨active, body, hbody⟩ := hbody
  obtain ⟨left, _, -, hleft, hkey, hne, -, -⟩ := ofBody?_eq_some hbody
  refine ⟨hkey ▸ hne, hkey ▸ Text.tight_trimChars left, ?_, hhead⟩
  rw [hkey]
  exact fun hm => hleft (Text.mem_of_mem_trimChars hm)

/-- A key, an equals sign and anything, after white space, make an active line. -/
theorem ofLine?_assign {ind : List Char} (hind : ∀ c ∈ ind, Text.isSpace c = true)
    {key : String} (hk : IsKey key) (value : String) {l : String}
    (hl : l.toList = ind ++ (Line.assign key value).toList) :
    ofLine? l = some ⟨key, Text.trim value, true⟩ := by
  have heq : Text.isSpace '=' = false := by decide
  obtain ⟨c, cs, hkey⟩ := List.exists_cons_of_ne_nil hk.nonempty
  have hc : Text.isSpace c = false := hk.tight.head c (by simp [hkey])
  have htrim : Text.trimChars l.toList =
      key.toList ++ '=' :: Text.trimEndChars value.toList := by
    have hassign : (Line.assign key value).toList = key.toList ++ '=' :: value.toList := by
      simp [Line.assign]
    have hstart : Text.trimStartChars (key.toList ++ '=' :: value.toList) =
        key.toList ++ '=' :: value.toList := by
      simp [Text.trimStartChars, hkey, hc]
    rw [hl, hassign, Text.trimChars_append_left hind, Text.trimChars, hstart,
      Text.trimEndChars_append_cons heq]
  have hbody : ofBody? true (key.toList ++ '=' :: Text.trimEndChars value.toList) =
      some ⟨key, Text.trim value, true⟩ := by
    unfold ofBody?
    rw [Text.splitFirst_append hk.not_mem]
    simp only [hk.tight.trimChars_eq, Text.trimChars_trimEndChars]
    simp [hkey, Text.trim, ← String.toList_inj]
  unfold ofLine?
  rw [htrim, hkey, List.cons_append]
  split
  · rename_i rest heq'
    cases heq'
    exact absurd (by simp [hkey]) hk.head
  · rw [← List.cons_append, ← hkey]
    exact hbody

theorem ofLine?_assign_self {key value : String} (hk : IsKey key)
    (hv : Text.trim value = value) :
    ofLine? (Line.assign key value) = some ⟨key, value, true⟩ := by
  have hind : ∀ c ∈ ([] : List Char), Text.isSpace c = true := by simp
  have hread := ofLine?_assign hind hk value (l := Line.assign key value) rfl
  rw [hread, hv]

/-- A line that is read with the key it was written with is active. -/
theorem active_of_ofLine?_assign {key value : String} {a : Assignment}
    (h : ofLine? (Line.assign key value) = some a) (hkey : a.key = key) : a.active = true := by
  unfold ofLine? at h
  split at h
  · rename_i rest htrim
    obtain ⟨left, right, hbody, hleft, hread, -, -, -⟩ := ofBody?_eq_some h
    -- what stands in front of the body holds no equals sign either
    have hcut : rest = rest.takeWhile (· == '#') ++
        ((rest.dropWhile (· == '#')).takeWhile Text.isSpace ++ (left ++ '=' :: right)) := by
      rw [← hbody, Text.trimStartChars, List.takeWhile_append_dropWhile,
        List.takeWhile_append_dropWhile]
    obtain ⟨ind, trail, hline, hind⟩ := Text.exists_trimChars (Line.assign key value).toList
    rw [htrim, hcut] at hline
    have hassign : (Line.assign key value).toList = key.toList ++ '=' :: value.toList := by
      simp [Line.assign]
    have hspace : Text.isSpace '=' = false := by decide
    have hfront : '=' ∉ ind ++ '#' :: (rest.takeWhile (· == '#') ++
        ((rest.dropWhile (· == '#')).takeWhile Text.isSpace ++ left)) := by
      simp only [List.mem_append, List.mem_cons, not_or]
      refine ⟨fun hm => ?_, by decide, fun hm => ?_, fun hm => ?_, hleft⟩
      · rw [hind _ hm] at hspace
        cases hspace
      · exact absurd (List.mem_takeWhile_imp hm) (by decide)
      · rw [List.mem_takeWhile_imp hm] at hspace
        cases hspace
    have hkeyfree : '=' ∉ key.toList := by
      rw [← hkey, hread]
      exact fun hm => hleft (Text.mem_of_mem_trimChars hm)
    have hsplit := Text.splitFirst_append hkeyfree value.toList
    have hsplit' := Text.splitFirst_append hfront (right ++ trail)
    have hsame : ind ++ '#' :: (rest.takeWhile (· == '#') ++
        ((rest.dropWhile (· == '#')).takeWhile Text.isSpace ++ left)) ++ '=' :: (right ++ trail) =
        key.toList ++ '=' :: value.toList := by
      rw [← hassign, hline]
      simp only [List.append_assoc, List.cons_append]
    rw [hsame, hsplit, Option.some.injEq, Prod.mk.injEq] at hsplit'
    -- so the key would be longer than what it was read from
    obtain ⟨before, after, hparts, -⟩ := Text.exists_trimChars left
    have hlong := congrArg List.length hsplit'.1
    have hshort := congrArg List.length hparts
    rw [← hkey, hread] at hlong
    simp only [List.length_append, List.length_cons] at hlong hshort
    omega
  · obtain ⟨-, -, -, -, -, -, -, hact⟩ := ofBody?_eq_some h
    exact hact

end Assignment

namespace Line

open Assignment

/-! ## What is put on a line -/

theorem indent_isSpace (l : String) : ∀ c ∈ (Text.indent l).toList, Text.isSpace c = true := by
  intro c hc
  rw [Text.toList_indent] at hc
  exact List.mem_takeWhile_imp hc

theorem ofLine?_reassign {l value : String} {a : Assignment} (h : ofLine? l = some a)
    (hk : IsKey a.key) (hv : Text.trim value = value) :
    ofLine? (reassign value l) = some ⟨a.key, value, true⟩ := by
  unfold reassign
  rw [h]
  dsimp only
  split
  · rename_i hsame
    simp only [Bool.and_eq_true, beq_iff_eq] at hsame
    rw [h, ← hsame.1, ← hsame.2]
  · have hread := ofLine?_assign (indent_isSpace l) hk value
      (l := Text.indent l ++ assign a.key value) (by simp)
    rw [hread, hv]

theorem reassign_eq_self {l value : String} {a : Assignment} (h : ofLine? l = some a)
    (hact : a.active = true) (hv : a.value = value) : reassign value l = l := by
  unfold reassign
  rw [h]
  simp [hact, hv]

/-- A line that starts like a comment holds no active assignment. -/
theorem ofLine?_comment_inactive {ind cs : List Char} (hind : ∀ c ∈ ind, Text.isSpace c = true)
    {l : String} (hl : l.toList = ind ++ '#' :: cs) {a : Assignment} (h : ofLine? l = some a) :
    a.active = false := by
  have hhash : Text.isSpace '#' = false := by decide
  have hstart : Text.trimStartChars ('#' :: cs) = '#' :: cs := by
    simp [Text.trimStartChars, hhash]
  have htrim : Text.trimChars l.toList = '#' :: Text.trimEndChars cs := by
    rw [hl, Text.trimChars_append_left hind, Text.trimChars, hstart]
    exact Text.trimEndChars_append_cons hhash [] cs
  unfold ofLine? at h
  rw [htrim] at h
  obtain ⟨_, _, _, _, _, _, _, hact⟩ := ofBody?_eq_some h
  exact hact

/-- Blank lines and plain comments assign nothing. -/
theorem ofLine?_eq_none {l : String} (h : Text.isBlank l = true ∨ isPlainComment l = true) :
    Assignment.ofLine? l = none := by
  rcases h with h | h
  · rw [Text.isBlank_iff] at h
    unfold Assignment.ofLine?
    rw [h]
    rfl
  · rw [isPlainComment, Bool.and_eq_true, Option.isNone_iff_eq_none] at h
    exact h.2

theorem toList_commentOut (l : String) :
    (commentOut l).toList = (Text.indent l).toList ++ '#' :: (Text.trimStart l).toList := by
  simp [commentOut]

/-- An active assignment that is commented out is read again, unless its key holds white space. -/
theorem ofLine?_commentOut {l : String} {a : Assignment} (h : ofLine? l = some a)
    (hact : a.active = true) :
    ofLine? (commentOut l) =
      if a.key.toList.any Text.isSpace then none else some ⟨a.key, a.value, false⟩ := by
  have htrim : Text.trimChars (commentOut l).toList = '#' :: Text.trimChars l.toList := by
    have hhash : Text.isSpace '#' = false := by decide
    have hstart : Text.trimStartChars ('#' :: (Text.trimStart l).toList) =
        '#' :: Text.trimStartChars l.toList := by
      simp [Text.trimStartChars, Text.trimStart, hhash]
    rw [toList_commentOut, Text.trimChars_append_left (indent_isSpace l), Text.trimChars, hstart]
    exact Text.trimEndChars_append_cons hhash [] _
  unfold ofLine? at h
  split at h
  · obtain ⟨-, -, -, -, -, -, -, hfalse⟩ := ofBody?_eq_some h
    rw [hact] at hfalse
    cases hfalse
  · rename_i hhash
    have hdrop : (Text.trimChars l.toList).dropWhile (· == '#') = Text.trimChars l.toList := by
      cases hbody : Text.trimChars l.toList with
      | nil => rfl
      | cons c cs =>
        refine List.dropWhile_cons_of_neg fun hc => ?_
        rw [beq_iff_eq] at hc
        exact hhash cs (hc ▸ hbody)
    have hread : ofLine? (commentOut l) = ofBody? false (Text.trimStartChars
        ((Text.trimChars l.toList).dropWhile (· == '#'))) := by
      rw [ofLine?, htrim]
      rfl
    rw [hread, hdrop, (Text.tight_trimChars _).trimStartChars_eq]
    unfold ofBody? at h ⊢
    split at h
    · cases h
    · dsimp only at h
      split at h
      · cases h
      · rename_i hkey
        cases h
        simp only [Bool.or_eq_true, not_or, List.isEmpty_iff] at hkey
        simp [hkey.1]

/-! ## Line feeds -/

/-- What is read from the body of a line stands on the line. -/
theorem subset_of_body {l : String} {a : Assignment} {part : List Char} (h : ofLine? l = some a)
    (hbody : ∀ {active : Bool} {body : List Char}, ofBody? active body = some a →
      ∀ c ∈ part, c ∈ body) : ∀ c ∈ part, c ∈ l.toList := by
  intro c hc
  unfold ofLine? at h
  split at h
  · rename_i rest hl
    have hmem := hbody h c hc
    have hrest : c ∈ rest :=
      (List.dropWhile_suffix _).subset ((List.dropWhile_suffix _).subset hmem)
    exact Text.mem_of_mem_trimChars (hl ▸ List.mem_cons_of_mem _ hrest)
  · exact Text.mem_of_mem_trimChars (hbody h c hc)

theorem key_subset {l : String} {a : Assignment} (h : ofLine? l = some a) :
    ∀ c ∈ a.key.toList, c ∈ l.toList := by
  refine subset_of_body h fun {active body} hb c hc => ?_
  obtain ⟨left, right, rfl, _, hkey, _, _, _⟩ := ofBody?_eq_some hb
  rw [hkey] at hc
  exact List.mem_append_left _ (Text.mem_of_mem_trimChars hc)

theorem value_subset {l : String} {a : Assignment} (h : ofLine? l = some a) :
    ∀ c ∈ a.value.toList, c ∈ l.toList := by
  refine subset_of_body h fun {active body} hb c hc => ?_
  obtain ⟨left, right, rfl, _, _, _, hvalue, _⟩ := ofBody?_eq_some hb
  rw [hvalue] at hc
  exact List.mem_append_right _ (List.mem_cons_of_mem _ (Text.mem_of_mem_trimChars hc))

theorem not_mem_reassign {l value : String} (hl : '\n' ∉ l.toList) (hv : '\n' ∉ value.toList) :
    '\n' ∉ (reassign value l).toList := by
  unfold reassign
  split
  · exact hl
  · rename_i a h
    split
    · exact hl
    · have hind : '\n' ∉ (Text.indent l).toList := by
        rw [Text.toList_indent]
        exact fun hm => hl ((List.takeWhile_sublist _).subset hm)
      have hkey : '\n' ∉ a.key.toList := fun hm => hl (key_subset h _ hm)
      simp [assign, hkey, hv]
      simpa using hind

theorem not_mem_commentOut {l : String} (hl : '\n' ∉ l.toList) :
    '\n' ∉ (commentOut l).toList := by
  have hcut := congrArg String.toList (Text.indent_append_trimStart l)
  rw [String.toList_append] at hcut
  rw [← hcut] at hl
  simp only [commentOut, String.toList_append, List.mem_append, not_or] at hl ⊢
  exact ⟨⟨hl.1, by decide⟩, hl.2⟩

/-- An assignment ends with its value, whatever stands in front of it. -/
theorem ends_assign (ind key : String) {value : String} (hv : Text.trim value = value)
    (hblank : Text.isBlank value = false) :
    ind ++ assign key value ≠ "" ∧ (ind ++ assign key value).toList.getLast? ≠ some '\r' := by
  have hend : (ind ++ assign key value).toList =
      (ind.toList ++ key.toList ++ ['=']) ++ value.toList := by
    simp [assign]
  constructor
  · intro hempty
    rw [hempty] at hend
    simp at hend
  · rw [hend]
    intro hreturn
    have hspace := Text.isSpace_getLast?_of_trim hv hblank hreturn
    cases hspace

end Line

end BuildChain

import BuildChain.Proofs.Document.Settling
import BuildChain.Proofs.Writer.Frame
import BuildChain.Proofs.Writer.Parts
import BuildChain.Proofs.Writer.Unchanged

/-!
# A property switched off and on again

Taking a property out of a chain comments out the one line that sets it, and putting it back finds
that line again: the first save touches one character of the text, the second takes it back. While
the second save is under way the line is the only thing that can change, and it is as it was before
as soon as the property is written.
-/

namespace BuildChain

open Assignment (IsKey)

/-! ## Chains that differ in properties -/

namespace Chain

variable {c c' : Chain} {key value : String}

/-- Besides properties, a chain writes what any chain with its globals and flags writes. -/
theorem Writes.cases_property (hw : c'.Writes key value) (hdist : c'.DistinctNames)
    (hglobals : c'.globals = c.globals) (hflags : c'.flags = c.flags)
    (hrawFlags : c'.rawFlags = c.rawFlags) :
    c.Writes key value ∨ ∃ name suffix raw, c'.get? name suffix = some raw ∧
      key = Route.propertyKey name suffix ∧ value = Text.trim raw := by
  cases hw with
  | global hget hblank => exact .inl (.global (hglobals ▸ hget) hblank)
  | property hs hget _ =>
    exact .inr ⟨_, _, _, (get?_of_mem hdist hs (Text.sameName_refl _) _).trans hget, rfl, rfl⟩
  | flag hget => exact .inl (.flag (hflags ▸ hget))
  | rawFlag hget hblank => exact .inl (.rawFlag (hrawFlags ▸ hget) hblank)

theorem keeps_of_keeps {r : Route} (h : Document.keeps c r = true)
    (hglobals : c'.globals = c.globals) (hflags : c'.flags = c.flags)
    (hrawFlags : c'.rawFlags = c.rawFlags)
    (hget : ∀ name suffix, r = .property name suffix → (c.get? name suffix).isSome = true →
      (c'.get? name suffix).isSome = true) : Document.keeps c' r = true := by
  cases r with
  | global key => rwa [Document.keeps, hglobals]
  | flag suite => rwa [Document.keeps, hflags, hrawFlags]
  | property name suffix =>
    rw [Document.keeps_property] at h ⊢
    exact hget name suffix rfl h
  | nowhere => rfl

theorem get?_modifySection_erase (c : Chain) (name suffix n p : String) :
    (c.modifySection name fun s => s.erase suffix).get? n p =
      if Text.sameName name n = true ∧ p = suffix then none else c.get? n p := by
  have hmod := section?_modifySection c name n (f := fun s => s.erase suffix) fun _ => rfl
  rw [get?, hmod, get?]
  by_cases hsame : Text.sameName name n = true
  · cases hs : c.section? n with
    | none => simp [hsame]
    | some s =>
      by_cases hp : p = suffix <;> simp [hsame, hp, Section.get?_erase]
  · simp [hsame]

theorem upsertSection_fields (c : Chain) (name : String) (f : Section → Section) :
    (c.upsertSection name f).globals = c.globals ∧ (c.upsertSection name f).flags = c.flags ∧
      (c.upsertSection name f).rawFlags = c.rawFlags ∧
      (c.upsertSection name f).source = c.source := by
  unfold upsertSection
  split <;> exact ⟨rfl, rfl, rfl, rfl⟩

theorem DistinctNames.upsertSection (h : c.DistinctNames) (name suffix value : String) :
    (c.upsertSection name fun s => s.set suffix value).DistinctNames := by
  rw [DistinctNames, names_upsertSection]
  split
  · exact h
  · rename_i hhas
    refine List.pairwise_append.mpr ⟨h, List.pairwise_singleton _ _, fun n hn n' hn' => ?_⟩
    rw [List.mem_singleton.mp hn', ← Bool.not_eq_true]
    exact fun hsame => hhas (hasSection_iff.mpr ⟨n, hn, hsame⟩)

/-- A property that is set is written, under its key in the spelling of the section. -/
theorem exists_writes_set (c : Chain) (name suffix : String) (hblank : Text.isBlank value = false) :
    ∃ k v, (c.upsertSection name fun s => s.set suffix value).Writes k v ∧
      Text.sameName (Route.propertyKey name suffix) k = true := by
  have hget : (c.upsertSection name fun s => s.set suffix value).get? name suffix =
      some value := by
    rw [get?_upsertSection, if_pos ⟨Text.sameName_refl name, rfl⟩]
  obtain ⟨s, hfind, hset⟩ := Option.bind_eq_some_iff.mp hget
  have hname : Text.sameName s.name name = true :=
    List.find?_some (p := fun s : Section => s.isNamed name) hfind
  rw [Text.sameName_comm] at hname
  exact ⟨_, _, .property (List.mem_of_find?_eq_some hfind) hset hblank,
    Route.sameName_propertyKey hname suffix⟩

end Chain

namespace Document

/-! ## The only line of a property -/

/-- A line that sets a property, between the others. It has nothing but indentation around its key
and its value, and no other line has its key. -/
structure SoleLine (front : Document) (l : String) (back : Document)
    (name suffix value : String) : Prop where
  form : l = Text.indent l ++ Line.assign (Route.propertyKey name suffix) value
  read : Assignment.ofLine? l = some ⟨Route.propertyKey name suffix, value, true⟩
  route : Route.ofKey (Route.propertyKey name suffix) = .property name suffix
  noSpace : (Route.propertyKey name suffix).toList.any Text.isSpace = false
  notBlank : Text.isBlank value = false
  alone : ∀ x ∈ assignments (front ++ back), x.key ≠ Route.propertyKey name suffix

namespace SoleLine

variable {front back : Document} {l name suffix value : String}

theorem trimStart_eq (h : SoleLine front l back name suffix value) :
    Text.trimStart l = Line.assign (Route.propertyKey name suffix) value := by
  have hcut := Text.indent_append_trimStart l
  conv_rhs at hcut => rw [h.form]
  rw [← String.toList_inj, String.toList_append, String.toList_append] at hcut
  exact String.toList_inj.mp (List.append_cancel_left hcut)

theorem trim_value (h : SoleLine front l back name suffix value) : Text.trim value = value := by
  have htight := Assignment.tight_value h.read
  exact htight

theorem ofLine?_commentOut (h : SoleLine front l back name suffix value) :
    Assignment.ofLine? (Line.commentOut l) =
      some ⟨Route.propertyKey name suffix, value, false⟩ := by
  rw [Line.ofLine?_commentOut h.read rfl, h.noSpace]
  rfl

/-- The line comes back when its value is written onto it. -/
theorem reassign_commentOut (h : SoleLine front l back name suffix value) :
    Line.reassign value (Line.commentOut l) = l := by
  rw [Line.reassign, h.ofLine?_commentOut]
  dsimp only
  rw [Bool.false_and, if_neg Bool.false_ne_true, Line.indent_commentOut, ← h.form]

theorem assignments_on (h : SoleLine front l back name suffix value) :
    assignments (front ++ l :: back) = assignments front ++
      ⟨Route.propertyKey name suffix, value, true⟩ :: assignments back := by
  simp [assignments, h.read]

theorem assignments_off (h : SoleLine front l back name suffix value) :
    assignments (front ++ Line.commentOut l :: back) = assignments front ++
      ⟨Route.propertyKey name suffix, value, false⟩ :: assignments back := by
  simp [assignments, h.ofLine?_commentOut]

theorem key_mem (h : SoleLine front l back name suffix value) {x : Assignment}
    (hx : x ∈ assignments (front ++ Line.commentOut l :: back)) :
    ∃ y ∈ assignments (front ++ l :: back), y.key = x.key ∧ (x.active = true → y = x) := by
  rw [h.assignments_off] at hx
  rw [h.assignments_on]
  rcases List.mem_append.mp hx with hx | hx
  · exact ⟨x, List.mem_append_left _ hx, rfl, fun _ => rfl⟩
  · rcases List.mem_cons.mp hx with rfl | hx
    · exact ⟨_, List.mem_append_right _ List.mem_cons_self, rfl, fun hact => by cases hact⟩
    · exact ⟨x, List.mem_append_right _ (List.mem_cons_of_mem _ hx), rfl, fun _ => rfl⟩

theorem mem_others {x : Assignment} (hx : x ∈ assignments (front ++ back)) (m : String) :
    x ∈ assignments (front ++ m :: back) := by
  have hsub : (front ++ back).Sublist (front ++ m :: back) :=
    (List.sublist_cons_self m back).append_left front
  exact (hsub.filterMap Assignment.ofLine?).subset hx

/-- Where keys have one spelling, no other line has the key in any case. -/
theorem not_same (h : SoleLine front l back name suffix value)
    (hspelling : OneSpelling (assignments (front ++ l :: back))) {x : Assignment}
    (hx : x ∈ assignments (front ++ back)) :
    Text.sameName x.key (Route.propertyKey name suffix) = false := by
  rw [← Bool.not_eq_true]
  intro hsame
  have hon : ⟨Route.propertyKey name suffix, value, true⟩ ∈ assignments (front ++ l :: back) :=
    h.assignments_on ▸ List.mem_append_right _ List.mem_cons_self
  exact h.alone x hx (hspelling x (mem_others hx l) _ hon hsame)

end SoleLine

/-! ## What is in force -/

section

variable {c : Chain} {doc : Document}

theorem SpelledOnce.of_oneSpelling (h : OneSpelling doc.assignments) : doc.SpelledOnce :=
  fun x hx y hy _ _ => h x hx y hy

/-- A property that was read from a document is in force there, on a line of its section. -/
theorem inForce_of_property (hc : c.Describes (settings doc.assignments))
    (hspelled : doc.SpelledOnce) {name suffix raw : String}
    (hget : c.get? name suffix = some raw) :
    (∃ x, inForce? doc.assignments (Route.propertyKey name suffix) = some x ∧
      x.value = Text.trim raw) ∧ doc.hasSection name = true := by
  obtain ⟨k, n, hk, hroute, hname⟩ := hc.exists_property hget
  have hmem := mem_of_get?_settings hk
  have hkey : Text.sameName k (Route.propertyKey name suffix) = true := by
    rw [(Route.ofKey_eq_property hroute).1]
    exact Route.sameName_propertyKey hname suffix
  refine ⟨⟨_, inForce?_of_setting hspelled hk hkey, ?_⟩, ?_⟩
  · exact (trim_of_mem_assignments hmem).symm
  · exact hasSection_iff.mpr ⟨_, hmem, n, suffix, hroute, hname⟩

end

/-! ## Switched off -/

/-- Without the property, the chain still writes what is in force. -/
theorem update_erase (o : Order) {c : Chain} {doc : Document} (hspelled : doc.SpelledOnce)
    (hflags : doc.LowerFlags) (hc : c.Describes (settings doc.assignments))
    (name suffix : String) : update o (c.modifySection name fun s => s.erase suffix) doc =
      doc.map (retire (c.modifySection name fun s => s.erase suffix)) := by
  have hgets : ∀ {n p raw}, (c.modifySection name fun s => s.erase suffix).get? n p = some raw →
      c.get? n p = some raw := by
    intro n p raw hget
    rw [Chain.get?_modifySection_erase] at hget
    split at hget
    · cases hget
    · exact hget
  have hdist : (c.modifySection name fun s => s.erase suffix).DistinctNames := by
    have hnames : (c.modifySection name fun s => s.erase suffix).names = c.names :=
      Chain.names_modifySection c name fun _ => rfl
    rw [Chain.DistinctNames, hnames]
    exact hc.distinctNames
  refine update_eq_map_retire o (fun key v hw => ?_) fun s hs hne => ?_
  · rcases hw.cases_property (c := c) hdist rfl rfl rfl with
      hw | ⟨n, p, raw, hget, rfl, rfl⟩
    · exact inForce_of_describes hc hspelled hflags hw
    · exact (inForce_of_property hc hspelled (hgets hget)).1
  · obtain ⟨⟨key, v⟩, hmem⟩ := List.exists_mem_of_ne_nil _ hne
    obtain ⟨p, raw, hget, -, -, -⟩ := mem_sectionWrites.mp hmem
    have hown := (Chain.get?_of_mem hdist hs (Text.sameName_refl s.name) p).trans hget
    exact (inForce_of_property hc hspelled (hgets hown)).2

variable {front back : Document} {l name suffix value : String} {c : Chain}

/-- The line of the property is the only one that is commented out. -/
theorem SoleLine.update_erase (h : SoleLine front l back name suffix value) (o : Order)
    (hspelling : OneSpelling (assignments (front ++ l :: back)))
    (hflags : LowerFlags (front ++ l :: back))
    (hc : c.Describes (settings (assignments (front ++ l :: back)))) :
    update o (c.modifySection name fun s => s.erase suffix) (front ++ l :: back) =
      front ++ Line.commentOut l :: back := by
  have hupdate := Document.update_erase o (.of_oneSpelling hspelling) hflags hc name suffix
  -- every other active line has a setting of its own, which the chain still has
  have hkeeps : ∀ x ∈ assignments (front ++ back), x.active = true →
      keeps (c.modifySection name fun s => s.erase suffix) (Route.ofKey x.key) = true := by
    intro x hx hact
    have hkept : keeps c (Route.ofKey x.key) = true :=
      hc.keeps (mem_keys_settings.mpr ⟨x, SoleLine.mem_others hx l, hact, rfl⟩)
    refine Chain.keeps_of_keeps hkept rfl rfl rfl fun n p hroute hget => ?_
    rw [Chain.get?_modifySection_erase, if_neg]
    · exact hget
    · rintro ⟨hname, rfl⟩
      have hsame : Text.sameName x.key (Route.propertyKey name p) = true := by
        rw [(Route.ofKey_eq_property hroute).1, Text.sameName_comm]
        exact Route.sameName_propertyKey hname p
      rw [h.not_same hspelling hx] at hsame
      cases hsame
  have hretire : retire (c.modifySection name fun s => s.erase suffix) l = Line.commentOut l := by
    have hgone : keeps (c.modifySection name fun s => s.erase suffix) (.property name suffix) =
        false := by
      rw [keeps_property, Chain.get?_modifySection_erase, if_pos ⟨Text.sameName_refl name, rfl⟩]
      rfl
    rw [retire, h.read]
    dsimp only
    rw [h.route, hgone]
    rfl
  rw [assignments, List.filterMap_append] at hkeeps
  rw [hupdate, List.map_append, List.map_cons, hretire,
    map_retire_eq_self fun x hx => hkeeps x (List.mem_append_left _ hx),
    map_retire_eq_self fun x hx => hkeeps x (List.mem_append_right _ hx)]

/-! ## Switched on again -/

theorem SoleLine.inForce?_of_not_same (h : SoleLine front l back name suffix value) {key : String}
    (hkey : Text.sameName (Route.propertyKey name suffix) key = false) :
    inForce? (assignments (front ++ l :: back)) key =
      inForce? (assignments (front ++ Line.commentOut l :: back)) key := by
  rw [h.assignments_on, h.assignments_off]
  simp [inForce?_append, inForce?_cons, hkey]

theorem SoleLine.inForce?_self (h : SoleLine front l back name suffix value)
    (hspelling : OneSpelling (assignments (front ++ l :: back))) {key : String}
    (hkey : Text.sameName key (Route.propertyKey name suffix) = true) :
    inForce? (assignments (front ++ l :: back)) key =
      some ⟨Route.propertyKey name suffix, value, true⟩ := by
  have hback : inForce? (assignments back) key = none := by
    refine inForce?_eq_none_iff.mpr fun y hy _ => ?_
    rw [← Bool.not_eq_true]
    intro hsame
    have hy' : y ∈ assignments (front ++ back) := by
      rw [assignments, List.filterMap_append]
      exact List.mem_append_right _ hy
    have hdiff := h.not_same hspelling hy'
    rw [Text.sameName_trans hsame hkey] at hdiff
    cases hdiff
  rw [Text.sameName_comm] at hkey
  rw [h.assignments_on, inForce?_append, inForce?_cons, hback]
  simp [hkey]

/-- Writing the value under the key turns the line that is commented out into the one it was. -/
theorem SoleLine.upsert_commentOut (h : SoleLine front l back name suffix value)
    (hspelling : OneSpelling (assignments (front ++ l :: back))) {key : String}
    (hkey : Text.sameName key (Route.propertyKey name suffix) = true)
    (place : Document → String → Document) :
    upsert (front ++ Line.commentOut l :: back) key value place = front ++ l :: back := by
  have hothers : ∀ m ∈ front ++ back, names key m = false := by
    intro m hm
    rw [← Bool.not_eq_true, names_iff]
    rintro ⟨x, hread, hsame⟩
    have hdiff := h.not_same hspelling (mem_assignments.mpr ⟨m, hm, hread⟩)
    rw [Text.sameName_trans hsame hkey] at hdiff
    cases hdiff
  rw [Text.sameName_comm] at hkey
  have hnamed : names key (Line.commentOut l) = true :=
    names_iff.mpr ⟨_, h.ofLine?_commentOut, hkey⟩
  rcases upsert_cases (front ++ Line.commentOut l :: back) key value place with
    ⟨a, m, b, x, hsplit, hread, hsame, -, hres⟩ | ⟨hnone, -⟩
  · have hm : names key m = true := names_iff.mpr ⟨x, hread, hsame⟩
    have hnot : ∀ ls : Document, (∀ m' ∈ ls, m' ∈ front ++ back) → m ∉ ls := by
      intro ls hsub hmem
      rw [hothers m (hsub m hmem)] at hm
      cases hm
    obtain ⟨rfl, rfl, rfl⟩ := (List.append_cons_inj_of_notMem
      (hnot front fun m' => List.mem_append_left _)
      (hnot back fun m' => List.mem_append_right _)).mp hsplit
    rw [hres, h.reassign_commentOut]
  · rw [hnone _ (by simp)] at hnamed
    cases hnamed

theorem SoleLine.inForce?_off (h : SoleLine front l back name suffix value)
    (hspelling : OneSpelling (assignments (front ++ l :: back))) {key : String}
    (hkey : Text.sameName key (Route.propertyKey name suffix) = true) :
    inForce? (assignments (front ++ Line.commentOut l :: back)) key = none := by
  refine inForce?_eq_none_iff.mpr fun y hy hact => ?_
  rw [← Bool.not_eq_true]
  intro hsame
  have hother : y ∈ assignments (front ++ back) := by
    rw [h.assignments_off] at hy
    rw [assignments, List.filterMap_append]
    rcases List.mem_append.mp hy with hy | hy
    · exact List.mem_append_left _ hy
    · rcases List.mem_cons.mp hy with rfl | hy
      · cases hact
      · exact List.mem_append_right _ hy
  have hdiff := h.not_same hspelling hother
  rw [Text.sameName_trans hsame hkey] at hdiff
  cases hdiff

theorem SoleLine.spelledOnce_off (h : SoleLine front l back name suffix value)
    (hspelling : OneSpelling (assignments (front ++ l :: back))) :
    SpelledOnce (front ++ Line.commentOut l :: back) := by
  intro x hx y hy hxact hyact hsame
  obtain ⟨x', hx', -, hxeq⟩ := h.key_mem hx
  obtain ⟨y', hy', -, hyeq⟩ := h.key_mem hy
  rw [hxeq hxact] at hx'
  rw [hyeq hyact] at hy'
  exact hspelling x hx' y hy' hsame

/-- What the chain writes when the property is back: its value, and what is in force elsewhere. -/
theorem SoleLine.writes_set (h : SoleLine front l back name suffix value)
    (hspelling : OneSpelling (assignments (front ++ l :: back)))
    (hflags : LowerFlags (front ++ l :: back))
    (hc : c.Describes (settings (assignments (front ++ Line.commentOut l :: back))))
    {key v : String} (hw : (c.upsertSection name fun s => s.set suffix value).Writes key v) :
    (Text.sameName key (Route.propertyKey name suffix) = true ∧ v = value) ∨
      (Text.sameName (Route.propertyKey name suffix) key = false ∧
        ∃ x, inForce? (assignments (front ++ Line.commentOut l :: back)) key = some x ∧
          x.value = v) := by
  have hspelled := h.spelledOnce_off hspelling
  have hlower : LowerFlags (front ++ Line.commentOut l :: back) := by
    intro x hx hact
    obtain ⟨x', hx', -, hxeq⟩ := h.key_mem hx
    rw [hxeq hact] at hx'
    exact hflags x hx' hact
  -- the key of the property has nothing in force
  have hother : ∀ {k v}, (∃ x, inForce? (assignments (front ++ Line.commentOut l :: back)) k =
      some x ∧ x.value = v) → Text.sameName (Route.propertyKey name suffix) k = false := by
    rintro k v ⟨x, hx, -⟩
    rw [← Bool.not_eq_true, Text.sameName_comm]
    intro hkey
    rw [h.inForce?_off hspelling hkey] at hx
    cases hx
  obtain ⟨hglobals, hflags', hrawFlags, -⟩ :=
    c.upsertSection_fields name fun s => s.set suffix value
  rcases hw.cases_property (hc.distinctNames.upsertSection name suffix value) hglobals hflags'
      hrawFlags with hw | ⟨n, p, raw, hget, rfl, rfl⟩
  · have hforce := inForce_of_describes hc hspelled hlower hw
    exact .inr ⟨hother hforce, hforce⟩
  · rw [Chain.get?_upsertSection] at hget
    split at hget
    · rename_i hsame
      obtain ⟨hname, rfl⟩ := hsame
      cases hget
      refine .inl ⟨?_, h.trim_value⟩
      rw [Text.sameName_comm]
      exact Route.sameName_propertyKey hname p
    · have hforce := (inForce_of_property hc hspelled hget).1
      exact .inr ⟨hother hforce, hforce⟩

/-- Every section that writes anything has a line, be the property switched on or off. -/
theorem SoleLine.hasSection_set (h : SoleLine front l back name suffix value)
    (hspelling : OneSpelling (assignments (front ++ l :: back)))
    (hc : c.Describes (settings (assignments (front ++ Line.commentOut l :: back)))) {s : Section}
    (hs : s ∈ (c.upsertSection name fun s => s.set suffix value).sections)
    (hne : sectionWrites s ≠ []) :
    hasSection (front ++ Line.commentOut l :: back) s.name = true ∧
      hasSection (front ++ l :: back) s.name = true := by
  suffices hoff : hasSection (front ++ Line.commentOut l :: back) s.name = true by
    obtain ⟨x, hx, n, p, hroute, hname⟩ := hasSection_iff.mp hoff
    obtain ⟨y, hy, hkey, -⟩ := h.key_mem hx
    exact ⟨hoff, hasSection_iff.mpr ⟨y, hy, n, p, hkey ▸ hroute, hname⟩⟩
  obtain ⟨⟨key, v⟩, hmem⟩ := List.exists_mem_of_ne_nil _ hne
  obtain ⟨p, raw, hget, -, -, -⟩ := mem_sectionWrites.mp hmem
  have hown := Chain.get?_of_mem (hc.distinctNames.upsertSection name suffix value) hs
    (Text.sameName_refl s.name) p
  rw [hget, Chain.get?_upsertSection] at hown
  split at hown
  · rename_i hsame
    have hline : ⟨Route.propertyKey name suffix, value, false⟩ ∈
        assignments (front ++ Line.commentOut l :: back) :=
      h.assignments_off ▸ List.mem_append_right _ List.mem_cons_self
    exact hasSection_iff.mpr ⟨_, hline, name, suffix, h.route, hsame.1⟩
  · exact (inForce_of_property hc (h.spelledOnce_off hspelling) hown).2

theorem SoleLine.keeps_set (h : SoleLine front l back name suffix value)
    (hc : c.Describes (settings (assignments (front ++ Line.commentOut l :: back))))
    {x : Assignment} (hx : x ∈ assignments (front ++ l :: back)) (hact : x.active = true) :
    keeps (c.upsertSection name fun s => s.set suffix value) (Route.ofKey x.key) = true := by
  have hother : ∀ y ∈ assignments (front ++ Line.commentOut l :: back), y.active = true →
      keeps (c.upsertSection name fun s => s.set suffix value) (Route.ofKey y.key) = true := by
    intro y hy hyact
    obtain ⟨hglobals, hflags, hrawFlags, -⟩ :=
      c.upsertSection_fields name fun s => s.set suffix value
    have hkept : keeps c (Route.ofKey y.key) = true :=
      hc.keeps (mem_keys_settings.mpr ⟨y, hy, hyact, rfl⟩)
    refine Chain.keeps_of_keeps hkept hglobals hflags hrawFlags fun n p _ hget => ?_
    rw [Chain.get?_upsertSection]
    split
    · rfl
    · exact hget
  rw [h.assignments_on] at hx
  rw [h.assignments_off] at hother
  rcases List.mem_append.mp hx with hx | hx
  · exact hother x (List.mem_append_left _ hx) hact
  · rcases List.mem_cons.mp hx with rfl | hx
    · dsimp only
      rw [h.route, keeps_property, Chain.get?_upsertSection,
        if_pos ⟨Text.sameName_refl name, rfl⟩]
      rfl
    · exact hother x (List.mem_append_right _ (List.mem_cons_of_mem _ hx)) hact

/-- With the property back, its line is the only one that changes, and it changes back. -/
theorem SoleLine.update_set (h : SoleLine front l back name suffix value) (o : Order)
    (hspelling : OneSpelling (assignments (front ++ l :: back)))
    (hflags : LowerFlags (front ++ l :: back))
    (hc : c.Describes (settings (assignments (front ++ Line.commentOut l :: back)))) :
    update o (c.upsertSection name fun s => s.set suffix value)
      (front ++ Line.commentOut l :: back) = front ++ l :: back := by
  refine update_eq_of_one_write o (c.exists_writes_set name suffix h.notBlank)
    (fun e place he => ?_) (fun s hs hne => h.hasSection_set hspelling hc hs hne)
    fun x hx hact => h.keeps_set hc hx hact
  rcases h.writes_set hspelling hflags hc (mem_writes.mp he.mem_writes) with
    ⟨hkey, hvalue⟩ | ⟨hkey, hforce⟩
  · rw [hvalue]
    exact .inl ⟨h.upsert_commentOut hspelling hkey place,
      upsert_eq_self (h.inForce?_self hspelling hkey) place⟩
  · refine .inr ⟨hkey, hforce, ?_⟩
    rwa [h.inForce?_of_not_same hkey]

/-! ## The text -/

/-- The line that is commented out may stand where the line stood. -/
theorem SoleLine.parts (h : SoleLine front l back name suffix value) {lineBreak : String}
    {closed : Bool} (hparts : Writer.Parts lineBreak closed (front ++ l :: back)) :
    Writer.Parts lineBreak closed (front ++ Line.commentOut l :: back) := by
  obtain ⟨hne, hreturn⟩ := Line.ends_assign (Text.indent l ++ "#")
    (Route.propertyKey name suffix) h.trim_value h.notBlank
  rw [← h.trimStart_eq] at hne hreturn
  exact hparts.replace (Line.not_mem_commentOut (hparts.unbroken l (by simp))) hreturn hne

end Document

namespace Writer

open Document (SoleLine OneSpelling LowerFlags assignments)

theorem describes_of_lines {text : String} {doc : Document} (h : Text.lines text = doc) :
    (Chain.ofText text).Describes (Document.settings (assignments doc)) := by
  rw [← h, ← Document.settings_lines]
  exact Chain.describes_ofText text

/-- A property that only one line sets is switched off by a character in front of its key, and when
it is set to the same value again that character is gone and the text is the one it was. -/
theorem render_toggled (w : Writer) {text name suffix value l : String} {front back : Document}
    (hbreaks : UniformBreaks text) (hlines : Text.lines text = front ++ l :: back)
    (hline : SoleLine front l back name suffix value)
    (hspelling : OneSpelling (assignments (Text.lines text)))
    (hflags : LowerFlags (Text.lines text)) :
    ∃ before after off, text = before ++ l ++ after ∧ Text.lines before = front ∧
      off = before ++ (Text.indent l ++ "#" ++
        Line.assign (Route.propertyKey name suffix) value) ++ after ∧
      w.render ((Chain.ofText text).modifySection name fun s => s.erase suffix) = off ∧
      w.render ((Chain.ofText off).upsertSection name fun s => s.set suffix value) = text := by
  have htext := assemble_lines hbreaks
  have hparts := parts_of_text text
  rw [hlines] at htext hparts hspelling hflags
  obtain ⟨before, after, hbefore, haround⟩ := hparts.exists_around
  obtain ⟨hbreak, hclosed, hread⟩ := (hline.parts hparts).read
  refine ⟨before, after,
    assemble (Text.lineBreak text) (Text.endsClosed text) (front ++ Line.commentOut l :: back),
    ?_, hbefore, ?_, ?_, ?_⟩
  · rw [← haround, htext]
  · rw [haround, Line.commentOut, hline.trimStart_eq]
  · rw [@render_of_source w _ text rfl, hlines,
      hline.update_erase w.order hspelling hflags (describes_of_lines hlines)]
  · have hsource := (Chain.upsertSection_fields (Chain.ofText (assemble (Text.lineBreak text)
      (Text.endsClosed text) (front ++ Line.commentOut l :: back))) name
        fun s => s.set suffix value).2.2.2
    rw [render_of_source w hsource, hbreak, hclosed, hread,
      hline.update_set w.order hspelling hflags (describes_of_lines hread), htext]

theorem render_toggled_alone :
    ∃ before after off, " content.fork = x\r\n  olap.tag=v 1\r\ntests.s.run=true\r\n" =
        before ++ "  olap.tag=v 1" ++ after ∧ Text.lines before = [" content.fork = x"] ∧
      off = before ++ (Text.indent "  olap.tag=v 1" ++ "#" ++
        Line.assign (Route.propertyKey "olap" "tag") "v 1") ++ after ∧
      ({} : Writer).render ((Chain.ofText
        " content.fork = x\r\n  olap.tag=v 1\r\ntests.s.run=true\r\n").modifySection "olap"
          fun s => s.erase "tag") = off ∧
      ({} : Writer).render ((Chain.ofText off).upsertSection "olap" fun s => s.set "tag" "v 1") =
        " content.fork = x\r\n  olap.tag=v 1\r\ntests.s.run=true\r\n" := by
  have hline : SoleLine [" content.fork = x"] "  olap.tag=v 1" ["tests.s.run=true"]
      "olap" "tag" "v 1" := by
    constructor <;> decide +kernel
  exact render_toggled {} (by decide +kernel) (by decide +kernel) hline (by decide +kernel)
    (by decide +kernel)

end Writer

end BuildChain

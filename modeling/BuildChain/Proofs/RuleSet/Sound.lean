import BuildChain.Proofs.RuleSet
import BuildChain.RuleSet.OfText

/-!
# Rule documents that load

A document loads only if every rule in it is fit to be checked: `Rule.Kind.flaw?` is all that stands
between settings that can be read and a rule, and `RuleSet.Sound` says what it leaves. Switching
rules on and off does not touch that, and a sound set has no rule that a validation would have to
pass over.
-/

namespace BuildChain

/-! ## Bands -/

theorem Band.firstEmpty?_eq_none_iff {bands : List Band} :
    firstEmpty? bands = none ↔ ∀ b ∈ bands, b.min ≤ b.max := by
  simp [firstEmpty?]

/-! ## Kinds -/

namespace Rule

namespace Kind

/-- What a kind needs of its settings. -/
def IsSound : Kind → Prop
  | requiredProperty k => Text.isBlank k.property = false
  | allowedValues k => Text.isBlank k.property = false ∧ k.allowed ≠ []
  | exclusive k => 2 ≤ k.properties.length
  | oneOf k => 2 ≤ k.properties.length
  | buildNumbers k =>
    (∀ field ∈ k.fields, field = GlobalKey.version ∨ field = GlobalKey.devVersion) ∧
      ∀ bands, k.bands = some bands → ∀ b ∈ bands, b.min ≤ b.max
  | _ => True

theorem flaw?_eq_none_iff_of_buildNumbers (k : BuildNumbers) :
    (buildNumbers k).flaw? = none ↔ (buildNumbers k).IsSound := by
  have hbands : (Band.firstEmpty? (k.bands.getD [])).map RuleFlaw.emptyBand = none ↔
      ∀ bands, k.bands = some bands → ∀ b ∈ bands, b.min ≤ b.max := by
    rw [Option.map_eq_none_iff, Band.firstEmpty?_eq_none_iff]
    cases k.bands <;> simp
  have hfields : (k.fields.find? fun f => !isVersionKey f) = none ↔
      ∀ field ∈ k.fields, field = GlobalKey.version ∨ field = GlobalKey.devVersion := by
    simp [isVersionKey, or_iff_not_imp_left]
  rw [flaw?, IsSound, ← hfields, ← hbands]
  cases k.fields.find? fun f => !isVersionKey f <;> simp

/-- Nothing is wrong with settings exactly when they are sound. -/
theorem flaw?_eq_none_iff (k : Kind) : k.flaw? = none ↔ k.IsSound := by
  cases k with
  | requiredProperty k => simp [flaw?, IsSound]
  | allowedValues k =>
    cases hblank : Text.isBlank k.property <;> simp [flaw?, IsSound, hblank]
  | exclusive k | oneOf k =>
    simp only [flaw?, IsSound, ite_eq_right_iff, reduceCtorEq, imp_false, Nat.not_lt]
  | buildNumbers k => exact flaw?_eq_none_iff_of_buildNumbers k
  | _ => simp [flaw?, IsSound]

/-- Whatever the name of the kind asks for, it is checked before it becomes part of a rule. -/
theorem isSound_of_ofSettings {name : String} {d : Json.Draft} {k : Kind}
    (h : ofSettings name d = .ok k) : k.IsSound := by
  unfold ofSettings at h
  split at h
  · cases h
  · split at h
    · cases h
    · split at h
      · cases h
      · rename_i hflaw
        cases h
        exact (flaw?_eq_none_iff _).mp hflaw

end Kind

/-- A rule of a sound kind can always be checked: the one kind that can fail to be has properties
to look for. -/
theorem exists_issues {r : Rule} (h : r.kind.IsSound) (cat : Catalog) (c : Chain) :
    ∃ found, r.issues cat c = .ok found := by
  unfold issues
  split
  case h_4 k hk =>
    have hlen : 2 ≤ k.properties.length := by simpa [hk, Kind.IsSound] using h
    match hproperties : k.properties with
    | [] => simp [hproperties] at hlen
    | _ :: _ => exact ⟨_, rfl⟩
  all_goals exact ⟨_, rfl⟩

/-- The rule as it is when it is switched on. -/
def switchedOn (r : Rule) : Rule := { r with enabled := true }

theorem Entry.sound_of_rule {e : Entry} {r : Rule} (h : e.rule = .ok r) :
    Text.isBlank r.id = false ∧ r.kind.IsSound := by
  unfold Entry.rule at h
  split at h
  · cases h
  · rename_i hblank
    split at h
    · cases h
    · rename_i hkind
      cases h
      exact ⟨Bool.eq_false_iff.mpr hblank, Kind.isSound_of_ofSettings hkind⟩

end Rule

/-! ## Rule sets -/

namespace RuleSet

/-- What every rule set that was loaded has. -/
structure Sound (s : RuleSet) : Prop where
  ids_not_blank : ∀ id ∈ s.ids, Text.isBlank id = false
  ids_nodup : s.ids.Nodup
  kinds : ∀ r ∈ s.rules, r.kind.IsSound
  bands : ∀ b ∈ s.catalog.bands, b.min ≤ b.max

theorem firstRepeated?_eq_none_iff {seen ids : List String} :
    firstRepeated? seen ids = none ↔ ids.Nodup ∧ ∀ id ∈ ids, id ∉ seen := by
  induction ids generalizing seen with
  | nil => simp [firstRepeated?]
  | cons id ids ih =>
    by_cases hseen : id ∈ seen
    · simp [firstRepeated?, hseen]
    · have hstep : firstRepeated? seen (id :: ids) = firstRepeated? (id :: seen) ids := by
        simp [firstRepeated?, hseen]
      rw [hstep, ih, List.nodup_cons]
      constructor
      · rintro ⟨hnodup, hnew⟩
        refine ⟨⟨fun hid => hnew id hid List.mem_cons_self, hnodup⟩, ?_⟩
        rintro other (_ | ⟨_, hother⟩)
        · exact hseen
        · exact fun hold => hnew other hother (List.mem_cons_of_mem _ hold)
      · rintro ⟨⟨hid, hnodup⟩, hnew⟩
        refine ⟨hnodup, fun other hother hold => ?_⟩
        obtain rfl | hold := List.mem_cons.mp hold
        · exact hid hother
        · exact hnew other (List.mem_cons_of_mem _ hother) hold

theorem sound_of_ofRules {cat : Catalog} {rules : List Rule} {s : RuleSet}
    (h : ofRules cat rules = .ok s)
    (hrules : ∀ r ∈ rules, Text.isBlank r.id = false ∧ r.kind.IsSound) : s.Sound := by
  unfold ofRules at h
  split at h
  · cases h
  · rename_i hids
    split at h
    · cases h
    · rename_i hbands
      cases h
      exact
        { ids_not_blank := List.forall_mem_map.mpr fun r hr => (hrules r hr).1
          ids_nodup := (firstRepeated?_eq_none_iff.mp hids).1
          kinds := fun r hr => (hrules r hr).2
          bands := Band.firstEmpty?_eq_none_iff.mp hbands }

/-- What holds of every result of a step holds of all results of a run. -/
theorem forall_of_mapM {α β ε : Type} {f : α → Except ε β} {P : β → Prop}
    (hf : ∀ a b, f a = .ok b → P b) :
    ∀ {as : List α} {bs : List β}, as.mapM f = .ok bs → ∀ b ∈ bs, P b
  | [], bs, h => by cases h; simp
  | a :: as, bs, h => by
    rw [List.mapM_cons] at h
    cases ha : f a with
    | error e => simp [ha, bind, Except.bind] at h
    | ok b =>
      cases has : as.mapM f with
      | error e => simp [ha, has, bind, Except.bind] at h
      | ok rest =>
        simp only [ha, has, bind, Except.bind, pure, Except.pure, Except.ok.injEq] at h
        subst h
        exact List.forall_mem_cons.mpr ⟨hf a b ha, forall_of_mapM hf has⟩

/-! ## Switching -/

/-- The same rules, switched on or off in any way. -/
structure Switched (s s' : RuleSet) : Prop where
  catalog : s'.catalog = s.catalog
  rules : s'.rules.map Rule.switchedOn = s.rules.map Rule.switchedOn

variable {s s' : RuleSet}

theorem Switched.refl (s : RuleSet) : s.Switched s := ⟨rfl, rfl⟩

theorem Switched.setEnabled (h : s.Switched s') (id : String) (on : Bool) :
    s.Switched (s'.setEnabled id on) := by
  refine ⟨h.catalog, Eq.trans ?_ h.rules⟩
  exact Chain.map_modifyFirst s'.rules fun _ => rfl

/-- Switches rules on and off, one after the other. -/
theorem Switched.run (h : s.Switched s') (switches : List (String × Bool)) :
    s.Switched (switches.foldl (fun t e => t.setEnabled e.1 e.2) s') := by
  induction switches generalizing s' with
  | nil => exact h
  | cons e switches ih => exact ih (h.setEnabled e.1 e.2)

theorem Switched.exists_rule (h : s.Switched s') {r' : Rule} (hr : r' ∈ s'.rules) :
    ∃ r ∈ s.rules, r.id = r'.id ∧ r.kind = r'.kind := by
  have hmem : r'.switchedOn ∈ s.rules.map Rule.switchedOn := h.rules ▸ List.mem_map_of_mem hr
  obtain ⟨r, hr, hsame⟩ := List.mem_map.mp hmem
  have hid : r.switchedOn.id = r'.switchedOn.id := congrArg Rule.id hsame
  have hkind : r.switchedOn.kind = r'.switchedOn.kind := congrArg Rule.kind hsame
  exact ⟨r, hr, hid, hkind⟩

theorem Switched.ids_eq (h : s.Switched s') : s'.ids = s.ids := by
  have hids : ∀ t : RuleSet, t.ids = (t.rules.map Rule.switchedOn).map Rule.id := fun t => by
    rw [List.map_map]
    rfl
  rw [hids, hids, h.rules]

theorem Sound.switched (hs : s.Sound) (h : s.Switched s') : s'.Sound where
  ids_not_blank := h.ids_eq ▸ hs.ids_not_blank
  ids_nodup := h.ids_eq ▸ hs.ids_nodup
  kinds r' hr := by
    obtain ⟨r, hr, -, hkind⟩ := h.exists_rule hr
    exact hkind ▸ hs.kinds r hr
  bands := h.catalog ▸ hs.bands

/-! ## Validating with a sound set -/

/-- Every rule in force is carried out, and all that it finds is reported. -/
structure CarriedOut (s : RuleSet) (c : Chain) : Prop where
  faults : ((Validator.ofRuleSet s).validate c).faults = []
  reported : ∀ r ∈ s.enabled, ∃ found, r.issues s.catalog c = .ok found ∧
    ∀ i ∈ found, i ∈ ((Validator.ofRuleSet s).validate c).issues

theorem Sound.carriedOut (h : s.Sound) (c : Chain) : s.CarriedOut c := by
  have hissues : ∀ r ∈ s.enabled, ∃ found, r.issues s.catalog c = .ok found := fun r hr =>
    Rule.exists_issues (h.kinds r (List.mem_of_mem_filter hr)) s.catalog c
  constructor
  · refine List.filterMap_eq_nil_iff.mpr (List.forall_mem_map.mpr fun r hr => ?_)
    obtain ⟨found, hfound⟩ := hissues r hr
    simp only [Validator.fault?, Rule.check, hfound]
  · intro r hr
    obtain ⟨found, hfound⟩ := hissues r hr
    refine ⟨found, hfound, fun i hi => ?_⟩
    refine List.mem_flatMap.mpr ⟨r.check s.catalog, List.mem_map_of_mem hr, ?_⟩
    rwa [Rule.issuesOf_check hfound]

/-! ## Documents -/

theorem sound_of_ofText {text : String} (h : ofText text = .ok s) : s.Sound := by
  simp only [ofText] at h
  split at h
  · cases h
  · split at h
    · cases h
    · split at h
      · cases h
      · split at h
        · cases h
        · rename_i hrules
          exact sound_of_ofRules h (forall_of_mapM (fun _ _ => Rule.Entry.sound_of_rule) hrules)

/-- A document that loads gives sound rules, and however they are switched on and off, none of them
is ever passed over. -/
theorem loaded_never_faults {text : String} {s : RuleSet} (h : ofText text = .ok s) :
    s.Sound ∧ ∀ s', s.Switched s' → ∀ c, s'.CarriedOut c :=
  ⟨sound_of_ofText h, fun _ hswitched c => ((sound_of_ofText h).switched hswitched).carriedOut c⟩

theorem loaded_never_faults_switched_off :
    ∃ s, ofText ("[\x7b\"ruleId\": \"Refs\", \"severity\": \"Error\", " ++
        "\"ruleType\": \"RequiredOneOf\", " ++
        "\"configuration\": \x7b\"properties\": [\"branch\", \"tag\"]\x7d\x7d]") = .ok s ∧
      s.Sound ∧ ∀ c, ((s.setEnabled "Refs" false).setEnabled "Refs" true).CarriedOut c := by
  have hload : ofText ("[\x7b\"ruleId\": \"Refs\", \"severity\": \"Error\", " ++
      "\"ruleType\": \"RequiredOneOf\", " ++
      "\"configuration\": \x7b\"properties\": [\"branch\", \"tag\"]\x7d\x7d]") = .ok
        { rules := [{
            id := "Refs"
            name := "Refs"
            severity := .error
            kind := .oneOf { properties := ["branch", "tag"] } }] } := by
    decide +kernel
  obtain ⟨hsound, hcarried⟩ := loaded_never_faults hload
  exact ⟨_, hload, hsound, hcarried _ ((Switched.refl _).run [("Refs", false), ("Refs", true)])⟩

end RuleSet

end BuildChain

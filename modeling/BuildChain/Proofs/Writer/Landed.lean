import BuildChain.Proofs.Document.Landing
import BuildChain.Proofs.Writer.Overwriting
import BuildChain.Proofs.Writer.WriteBack

/-!
# Reading back what has landed

A chain whose settings all land on lines that they are read from is read back from the text: a place
that the chain writes has the value that was written, the other places are as they were, and what
the chain lacks is commented out.
-/

namespace BuildChain

open Chain (settingAt?)

namespace Document

/-! ## What one write changes -/

/-- A value takes the place of the one on the target, or it comes in where there is no target. -/
theorem Upserts.target_cases {key value : String} {as as' : List Assignment}
    (h : Upserts key value as as') :
    (∃ a x b, as = a ++ x :: b ∧ as' = a ++ ⟨x.key, value, true⟩ :: b ∧
      target? as key = some x ∧
      (x.active = true → ∀ y ∈ b, y.active = true → Text.sameName y.key key = false) ∧
      (x.active = false → ∀ y ∈ a ++ b, y.active = true → Text.sameName y.key key = false)) ∨
    ∃ a b, as = a ++ b ∧ as' = a ++ ⟨key, value, true⟩ :: b ∧ target? as key = none ∧
      named as key = [] := by
  cases h with
  | overwrite a b x hkey hact hlast =>
    refine .inl ⟨a, x, b, rfl, rfl, ?_, fun _ => hlast, fun hoff => ?_⟩
    · rw [target?, inForce?_append, inForce?_cons, inForce?_eq_none_iff.mpr hlast,
        if_pos ⟨hact, hkey⟩]
      rfl
    · rw [hact] at hoff
      cases hoff
  | enable a b x hkey hact hnone hlast =>
    refine .inl ⟨a, x, b, rfl, rfl, ?_, fun hon => ?_, fun _ => hnone⟩
    · have hforce : inForce? (a ++ x :: b) key = none := by
        rw [inForce?_eq_none_iff]
        intro y hy hyact
        rcases List.mem_append.mp hy with hy | hy
        · exact hnone y (List.mem_append_left _ hy) hyact
        · rcases List.mem_cons.mp hy with rfl | hy
          · rw [hact] at hyact
            cases hyact
          · exact hnone y (List.mem_append_right _ hy) hyact
      have hrest : named b key = [] :=
        List.filter_eq_nil_iff.mpr fun y hy => by simp [hlast y hy]
      have hsplit : named (a ++ x :: b) key = named a key ++ x :: named b key := by
        simp [named, hkey]
      rw [target?, hforce, Option.none_or, hsplit, hrest, List.getLast?_concat]
    · rw [hact] at hon
      cases hon
  | add a b hnone =>
    have hnamed : named (a ++ b) key = [] :=
      List.filter_eq_nil_iff.mpr fun y hy => by simp [hnone y hy]
    refine .inr ⟨a, b, rfl, rfl, ?_, hnamed⟩
    rw [target?, hnamed, inForce?_eq_none_iff.mpr fun y hy _ => hnone y hy]
    rfl

/-- The key under which a value for a key comes to stand. -/
def landingKey (as : List Assignment) (key : String) : String :=
  ((target? as key).map Assignment.key).getD key

theorem target?_named (as : List Assignment) (key : String) :
    target? (named as key) key = target? as key := by
  have htwice : named (named as key) key = named as key := by
    rw [named, named, List.filter_filter]
    simp only [Bool.and_self]
  rw [target?, inForce?_named, htwice, target?]

theorem entries_append (as bs : List Assignment) : entries (as ++ bs) = entries as ++ entries bs :=
  List.filterMap_append

/-- What a write changes stands under its landing key. -/
theorem Upserts.entries_filter {key value : String} {as as' : List Assignment}
    (h : Upserts key value as as') {p : String → Bool} (hp : p (landingKey as key) = false) :
    (entries as').filter (fun e => p e.1) = (entries as).filter fun e => p e.1 := by
  have hout : ∀ (a b : List Assignment) (x : Assignment), p x.key = false →
      (entries (a ++ x :: b)).filter (fun e => p e.1) =
        (entries (a ++ b)).filter fun e => p e.1 := by
    intro a b x hx
    have hone : (entries [x]).filter (fun e => p e.1) = [] := by
      cases hact : x.active <;> simp [entries, hact, hx]
    rw [← List.singleton_append, entries_append, entries_append, entries_append,
      List.filter_append, List.filter_append, List.filter_append, hone, List.nil_append]
  rcases h.target_cases with
    ⟨a, x, b, rfl, rfl, htarget, -, -⟩ | ⟨a, b, rfl, rfl, htarget, -⟩
  · rw [landingKey, htarget] at hp
    rw [hout a b _ hp, hout a b ⟨x.key, value, true⟩ hp]
  · rw [landingKey, htarget] at hp
    exact hout a b ⟨key, value, true⟩ hp

theorem Upserts.settingAt?_of_not {key value : String} {as as' : List Assignment}
    (h : Upserts key value as as') {r : Route}
    (hr : (Route.ofKey (landingKey as key)).samePlace r = false) :
    settingAt? (settings as') r = settingAt? (settings as) r := by
  have honly : ∀ as, settingAt? (settings as) r =
      settingAt? (.ofList ((entries as).filter fun e => (Route.ofKey e.1).samePlace r)) r :=
    fun as => (Chain.settingAt?_ofList_filter _ fun _ hk => hk).symm
  rw [honly as', honly as, h.entries_filter (p := fun k => (Route.ofKey k).samePlace r) hr]

/-! ## One name -/

theorem entries_named (as : List Assignment) (key : String) :
    entries (named as key) = (entries as).filter fun e => Text.sameName e.1 key := by
  rw [entries, named, List.filterMap_filter, entries, List.filter_filterMap]
  refine List.filterMap_congr fun x _ => ?_
  cases hname : Text.sameName x.key key <;> cases hact : x.active <;>
    simp [hname, Option.filter_some]

/-- Only the lines of the name of its key count for a place. -/
theorem settingAt?_named (as : List Assignment) {r : Route} (hr : r ≠ .nowhere) :
    settingAt? (settings (named as r.key)) r = settingAt? (settings as) r := by
  rw [settings, entries_named]
  exact Chain.settingAt?_ofList_filter (entries as) (p := fun k => Text.sameName k r.key)
    fun k hk => Route.sameName_key hk hr

theorem filter_keys_named (as : List Assignment) {r : Route} (hr : r ≠ .nowhere) :
    (settings (named as r.key)).keys.filter (fun k => (Route.ofKey k).samePlace r) =
      (settings as).keys.filter fun k => (Route.ofKey k).samePlace r := by
  rw [settings, entries_named,
    OrderedMap.keys_ofList_filter (entries as) (fun k => Text.sameName k r.key), List.filter_filter,
    settings]
  refine List.filter_congr fun k _ => ?_
  cases hk : (Route.ofKey k).samePlace r with
  | true => rw [Route.sameName_key hk hr]; rfl
  | false => rfl

theorem settingAt?_single {k v : String} {r : Route} (hk : (Route.ofKey k).samePlace r = true) :
    settingAt? (.ofList [(k, v)]) r = some v := by
  have hkeys : (OrderedMap.ofList [(k, v)]).keys = [k] := rfl
  have hget : (OrderedMap.ofList [(k, v)]).get? k = some v := by
    rw [OrderedMap.get?_ofList]
    simp
  simp [settingAt?, hkeys, hk, hget]

/-- A value that lands where its place is read from is what is read. -/
theorem Upserts.settingAt?_self {start as' : List Assignment} {r : Route} {value : String}
    (h : Upserts r.key value (named start r.key) as') (hr : r ≠ .nowhere)
    (hplace : (Route.ofKey (landingKey start r.key)).samePlace r = true)
    (hdecides : ∀ x, target? start r.key = some x → x.active = true →
      Chain.Decides (settings start) x.key) :
    settingAt? (settings as') r = some value := by
  have hnamed : ∀ y ∈ named start r.key, Text.sameName y.key r.key = true :=
    fun y hy => (mem_named.mp hy).2
  -- without another active line of the name there is just the value
  have halone : ∀ (a b : List Assignment) (k : String),
      (∀ y ∈ a ++ b, y ∈ named start r.key) →
      (∀ y ∈ a ++ b, y.active = true → Text.sameName y.key r.key = false) →
      entries (a ++ ⟨k, value, true⟩ :: b) = [(k, value)] := by
    intro a b k hmem hnone
    have hoff : ∀ as : List Assignment, (∀ y ∈ as, y ∈ a ++ b) → entries as = [] := by
      intro as has
      refine List.filterMap_eq_nil_iff.mpr fun y hy => if_neg fun hact => ?_
      have hne := hnone y (has y hy) hact
      rw [hnamed y (hmem y (has y hy))] at hne
      cases hne
    rw [entries_append, ← List.singleton_append, entries_append,
      hoff a fun y hy => List.mem_append_left _ hy, hoff b fun y hy => List.mem_append_right _ hy]
    rfl
  rcases h.target_cases with
    ⟨a, x, b, hstart, rfl, htarget, hlast, hnone⟩ | ⟨a, b, hstart, rfl, htarget, hnil⟩
  · rw [target?_named] at htarget
    rw [landingKey, htarget] at hplace
    have hplace : (Route.ofKey x.key).samePlace r = true := hplace
    cases hact : x.active with
    | true =>
      have hkeys : (settings (a ++ ⟨x.key, value, true⟩ :: b)).keys.filter
          (fun k => (Route.ofKey k).samePlace r) =
          (settings start).keys.filter fun k => (Route.ofKey k).samePlace r := by
        rw [← filter_keys_named start hr, hstart]
        congr 1
        refine keys_settings_of_shape ?_
        simp [shape, hact]
      have hx := hdecides x htarget hact
      rw [Chain.Decides] at hx
      simp only [Route.samePlace_congr hplace] at hx
      rw [settingAt?, hkeys, hx, Option.bind_some]
      refine get?_settings_split (x := ⟨x.key, value, true⟩) rfl fun y hy hyact => ?_
      have hne := hlast hact y hy hyact
      have hxname := hnamed x (hstart ▸ by simp)
      rw [← Bool.not_eq_true] at hne ⊢
      exact fun hyx => hne (Text.sameName_trans hyx hxname)
    | false =>
      rw [settings, halone a b x.key (fun y hy => ?_) (hnone hact)]
      · exact settingAt?_single hplace
      · rw [hstart]
        rcases List.mem_append.mp hy with hy | hy
        · exact List.mem_append_left _ hy
        · exact List.mem_append_right _ (List.mem_cons_of_mem _ hy)
  · rw [target?_named] at htarget
    rw [landingKey, htarget] at hplace
    rw [settings, halone a b r.key (fun y hy => hstart ▸ hy) fun y hy hyact => ?_]
    · exact settingAt?_single hplace
    · have hmem : y ∈ named (named start r.key) r.key :=
        mem_named.mpr ⟨hstart ▸ hy, hnamed y (hstart ▸ hy)⟩
      rw [hnil] at hmem
      cases hmem

/-! ## All writes -/

variable {start as : List Assignment} {c : Chain}

/-- What is written comes to stand where its place is read from. -/
theorem Lands.samePlace_landingKey (h : Lands start c) (hwritable : Writable start c)
    {e : Route × String} (he : e ∈ puts c) :
    (Route.ofKey (landingKey start e.1.key)).samePlace e.1 = true := by
  unfold landingKey
  cases htarget : target? start e.1.key with
  | some x => exact (h.places e he x htarget).1
  | none => exact hwritable.places e he htarget

/-- After all writes, a place that is written has the value that was written. -/
theorem Landing.settingAt?_of_put (h : Landing start (writes c) as) (hlands : Lands start c)
    (hwritable : Writable start c) {e : Route × String} (he : e ∈ puts c) :
    settingAt? (settings as) e.1 = some e.2 := by
  have hr := ne_nowhere_of_mem_puts he
  rw [← settingAt?_named as hr]
  refine (h.touched _ (mem_writes_of_mem_puts he)).settingAt?_self hr
    (hlands.samePlace_landingKey hwritable he) fun x hx => (hlands.places e he x hx).2

/-- After all writes, a place that is not written is as it was. -/
theorem Landing.settingAt?_of_not_put (h : Landing start (writes c) as) (hlands : Lands start c)
    (hwritable : Writable start c) {r : Route} (hr : r ≠ .nowhere)
    (hother : ∀ e ∈ puts c, e.1.samePlace r = false) :
    settingAt? (settings as) r = settingAt? (settings start) r := by
  rw [← settingAt?_named as hr, ← settingAt?_named start hr]
  by_cases hname : ∀ e ∈ writes c, Text.sameName e.1 r.key = false
  · rw [h.untouched r.key hname]
  · simp only [not_forall, Bool.not_eq_false] at hname
    obtain ⟨e, he, hsame⟩ := hname
    obtain ⟨put, hput, rfl⟩ := List.mem_map.mp (map_puts c ▸ he)
    rw [← named_congr as hsame, ← named_congr start hsame]
    refine (h.touched _ he).settingAt?_of_not ?_
    -- the value stands at its own place, which is another one
    rw [← Bool.not_eq_true, landingKey, target?_named]
    intro hplace
    have hown := hlands.samePlace_landingKey hwritable hput
    have hne := hother put hput
    rw [Route.samePlace_trans (Route.samePlace_symm hown) hplace] at hne
    cases hne

/-! ## After the last pass -/

theorem settingAt?_retire {doc : Document} {r : Route} (hkeeps : keeps c r = true) :
    settingAt? (settings (assignments (doc.map (retire c)))) r =
      settingAt? (settings doc.assignments) r := by
  rw [settings, entries_retire]
  exact Chain.settingAt?_ofList_filter (entries doc.assignments)
    (p := fun k => keeps c (Route.ofKey k)) fun k hk => keeps_of_samePlace hk hkeeps

theorem settingAt?_retire_of_not {doc : Document} {r : Route} (hgone : keeps c r = false) :
    settingAt? (settings (assignments (doc.map (retire c)))) r = none := by
  rw [Chain.settingAt?_eq_none_iff]
  intro k hk
  obtain ⟨v, hv⟩ := Option.isSome_iff_exists.mp (OrderedMap.mem_keys_iff.mp hk)
  rw [get?_settings_retire] at hv
  split at hv
  · rename_i hkept
    rw [← Bool.not_eq_true]
    intro hplace
    rw [keeps_of_samePlace (Route.samePlace_symm hplace) hkept] at hgone
    cases hgone
  · cases hv

end Document

/-! ## What is read -/

/-- What a chain leaves unwritten is in the text already: a blank value stands there, and a flag
that the chain lacks does not. -/
structure Chain.LeavesBlank (c : Chain) (m : OrderedMap String) : Prop where
  blank : ∀ r raw, c.held? r = some raw → Text.isBlank raw = true →
    settingAt? m r = some (Text.trim raw)
  flags : ∀ suite, c.held? (.flag suite) = none → settingAt? m (.flag suite) = none

/-- The text that a chain was read from does not matter. -/
theorem Chain.Restores.with_source {c' c : Chain} (h : c'.Restores c) (source : Option String) :
    ({ c' with source := source } : Chain).Restores c :=
  ⟨h.globals, h.names, h.sections, h.properties, h.flags, h.rawFlags⟩

namespace Writer

open Document (assignments writes puts Lands Writable)

variable {text : String} {c : Chain}

/-- Place by place, what is read from the text is what the chain holds, trimmed. -/
theorem settingAt?_renderOnto (w : Writer) (hdist : c.DistinctNames)
    (hsuites : ∀ suite ∈ c.flags.keys, suite ∉ c.rawFlags.keys)
    (hlands : Lands (assignments (Text.lines text)) c)
    (hwritable : Writable (assignments (Text.lines text)) c)
    (hblank : c.LeavesBlank (Chain.settings text)) {r : Route} (hr : r ≠ .nowhere)
    (hknown : ∀ key, r = .global key → key ∈ GlobalKey.known) :
    settingAt? (Chain.settings (w.renderOnto text c)) r = (c.held? r).map Text.trim := by
  have hdoc : Document.Unbroken (Text.lines text) := fun l hl => Text.not_mem_of_mem_lines hl
  obtain ⟨d, hupdate, hunbroken, hlanding⟩ :=
    Document.landing_update w.order hdoc hlands hwritable
  have hout : Document.Unbroken (d.map (Document.retire c)) := by
    intro l hl
    obtain ⟨l', hl', rfl⟩ := List.mem_map.mp hl
    exact Document.not_mem_retire c (hunbroken l' hl')
  rw [renderOnto, hupdate, settings_assemble _ _ hout]
  have hother : (∀ raw, c.held? r = some raw → Text.isBlank raw = true) →
      ∀ e ∈ puts c, e.1.samePlace r = false := by
    intro hheld e he
    rw [← Bool.not_eq_true]
    intro hplace
    obtain ⟨raw, hraw, hfull, -⟩ := Document.held?_of_mem_puts hdist hsuites he
    rw [Chain.held?_congr c hplace] at hraw
    rw [hheld raw hraw] at hfull
    cases hfull
  cases hheld : c.held? r with
  | some raw =>
    have hkeeps := Document.keeps_of_held? (c := c) (r := r) (by rw [hheld]; rfl)
    rw [Document.settingAt?_retire hkeeps, Option.map_some]
    cases hfull : Text.isBlank raw with
    | true =>
      rw [hlanding.settingAt?_of_not_put hlands hwritable hr, ← Document.settings_lines]
      · exact hblank.blank r raw hheld hfull
      · refine hother fun raw' hraw' => ?_
        rw [hheld] at hraw'
        cases hraw'
        exact hfull
    | false =>
      obtain ⟨e, he, hplace, hvalue⟩ := Document.exists_put hheld hfull
      rw [← Chain.settingAt?_congr _ hplace, hlanding.settingAt?_of_put hlands hwritable he, hvalue]
  | none =>
    rw [Option.map_none]
    cases hkeeps : Document.keeps c r with
    | false => exact Document.settingAt?_retire_of_not hkeeps
    | true =>
      rw [Document.settingAt?_retire hkeeps]
      cases r with
      | global key =>
        rw [Document.keeps_global (hknown key rfl)] at hkeeps
        rw [Chain.held?, Option.eq_none_iff_forall_ne_some] at hheld
        obtain ⟨raw, hraw⟩ := Option.isSome_iff_exists.mp hkeeps
        exact absurd hraw (hheld raw)
      | flag suite =>
        rw [hlanding.settingAt?_of_not_put hlands hwritable hr, ← Document.settings_lines]
        · exact hblank.flags suite hheld
        · refine hother fun raw hraw => ?_
          rw [hheld] at hraw
          cases hraw
      | property name suffix =>
        rw [Document.keeps_property, ← Option.ne_none_iff_isSome] at hkeeps
        exact absurd hheld hkeeps
      | nowhere => exact absurd rfl hr

/-- Settings that say at each place what a chain holds there are read as that chain. -/
theorem restores_of_settingAt? {m : OrderedMap String}
    (hsuites : ∀ suite ∈ c.flags.keys, suite ∉ c.rawFlags.keys)
    (hliterals : ∀ suite raw, c.rawFlags.get? suite = some raw → readFlag raw = none)
    (hplace : ∀ r, r ≠ .nowhere → (∀ key, r = .global key → key ∈ GlobalKey.known) →
      settingAt? m r = (c.held? r).map Text.trim) : (Chain.ofSettings m).Restores c := by
  have hproperty : ∀ name suffix, (Chain.ofSettings m).get? name suffix =
      (c.get? name suffix).map Text.trim := fun name suffix =>
    (Chain.get?_eq_settingAt? m name suffix).trans (hplace _ (by simp) (by simp))
  have hread : ∀ suite raw, c.rawFlags.get? suite = some raw →
      c.flags.get? suite = none ∧ readFlag (Text.trim raw) = none := by
    intro suite raw hraw
    constructor
    · rw [OrderedMap.get?_eq_none_iff]
      exact fun hmem => hsuites suite hmem (OrderedMap.mem_keys_iff.mpr (by rw [hraw]; rfl))
    · rw [← hliterals suite raw hraw, readFlag, Text.trim_trim, readFlag]
  constructor
  case globals =>
    refine Globals.ext_get? fun key => ?_
    rw [Globals.get?_trimmed]
    by_cases hk : key ∈ GlobalKey.known
    · rw [Chain.global_eq_settingAt? m hk]
      refine hplace _ (by simp) fun key' heq => ?_
      cases heq
      exact hk
    · rw [Globals.get?_of_not_known hk, Globals.get?_of_not_known hk]
      rfl
  case names => exact Chain.distinctNames_ofSettings m
  case sections =>
    intro name
    rw [Chain.hasSection_ofSettings_iff]
    simp only [hproperty, Option.isSome_map]
  case properties => exact hproperty
  case flags =>
    intro suite
    rw [Chain.flag_eq_settingAt?, hplace _ (by simp) (by simp), Chain.held?]
    cases hraw : c.rawFlags.get? suite with
    | some raw => simp [hread suite raw hraw]
    | none => cases hflag : c.flags.get? suite <;> simp
  case rawFlags =>
    intro suite
    rw [Chain.rawFlag_eq_settingAt?, hplace _ (by simp) (by simp), Chain.held?]
    cases hraw : c.rawFlags.get? suite with
    | some raw => simp [hread suite raw hraw, Option.filter_some]
    | none => cases hflag : c.flags.get? suite <;> simp [Option.filter_some]

/-- A chain whose settings land where they are read from is read back from the text. -/
theorem restores_of_lands (w : Writer) (hdist : c.DistinctNames)
    (hsuites : ∀ suite ∈ c.flags.keys, suite ∉ c.rawFlags.keys)
    (hliterals : ∀ suite raw, c.rawFlags.get? suite = some raw → readFlag raw = none)
    (hlands : Lands (assignments (Text.lines text)) c)
    (hwritable : Writable (assignments (Text.lines text)) c)
    (hblank : c.LeavesBlank (Chain.settings text)) :
    (Chain.ofText (w.renderOnto text c)).Restores c := by
  have hread := restores_of_settingAt? hsuites hliterals fun r hr hknown =>
    w.settingAt?_renderOnto hdist hsuites hlands hwritable hblank hr hknown
  rw [Chain.ofText_eq]
  exact hread.with_source _

/-! ## What never lands -/

/-- Where a text has the key of a place in other spellings only, none of which leads there, nothing
is read at the place, whatever the chain holds. The keys that the chain keeps are still there. -/
theorem settingAt?_renderOnto_of_spellings (w : Writer) {r : Route} (hr : r ≠ .nowhere)
    (hlines : Document.MakeLines (writes c))
    (hne : Document.spellings (assignments (Text.lines text)) r.key ≠ [])
    (hother : ∀ k ∈ Document.spellings (assignments (Text.lines text)) r.key,
      (Route.ofKey k).samePlace r = false)
    (hsections : ∀ s ∈ c.sections, ∀ e ∈ Document.sectionWrites s,
      Text.sameName e.1 r.key = true →
        ∃ k ∈ Document.spellings (assignments (Text.lines text)) r.key, ∃ p,
          (Route.ofKey k).samePlace (.property s.name p) = true) :
    settingAt? (Chain.settings (w.renderOnto text c)) r = none ∧
      ∀ k ∈ (Chain.settings text).keys, Document.keeps c (Route.ofKey k) = true →
        k ∈ (Chain.settings (w.renderOnto text c)).keys := by
  have hdoc : Document.Unbroken (Text.lines text) := fun l hl => Text.not_mem_of_mem_lines hl
  obtain ⟨d, hupdate, hunbroken, hspellings, hkeys⟩ :=
    Document.spellings_update w.order hdoc hlines hne hsections
  have hout : Document.Unbroken (d.map (Document.retire c)) := by
    intro l hl
    obtain ⟨l', hl', rfl⟩ := List.mem_map.mp hl
    exact Document.not_mem_retire c (hunbroken l' hl')
  rw [renderOnto, hupdate, settings_assemble _ _ hout]
  constructor
  · rw [Chain.settingAt?_eq_none_iff]
    intro k hk
    rw [← Bool.not_eq_true]
    intro hplace
    obtain ⟨v, hv⟩ := Option.isSome_iff_exists.mp (OrderedMap.mem_keys_iff.mp hk)
    rw [Document.get?_settings_retire] at hv
    split at hv
    · have hline := Document.mem_of_get?_settings hv
      have hspelled : k ∈ Document.spellings (assignments (Text.lines text)) r.key := by
        rw [← hspellings]
        exact List.mem_map.mpr
          ⟨_, Document.mem_named.mpr ⟨hline, Route.sameName_key hplace hr⟩, rfl⟩
      rw [hother k hspelled] at hplace
      cases hplace
    · cases hv
  · intro k hk hkeeps
    rw [Document.settings_lines] at hk
    rw [OrderedMap.mem_keys_iff, Document.get?_settings_retire, if_pos hkeeps]
    exact OrderedMap.mem_keys_iff.mp (hkeys k hk)

end Writer

end BuildChain

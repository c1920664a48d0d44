import BuildChain.Proofs.Chain.Agreement
import BuildChain.Proofs.Document.Reread
import BuildChain.Proofs.Writer.Assembly

/-!
# What a save without edits overwrites

A chain that was read writes each of its values onto the last active line that names the key in any
case. So a save gives new values to those lines only, and what is read afterwards differs exactly
where such a line decides, and the last value that was written for its name is not read as its own.
-/

namespace BuildChain

namespace Document

open Assignment (IsKey)

/-! ## One overwrite -/

theorem inForce?_split {as : List Assignment} {key : String} {x : Assignment}
    (h : inForce? as key = some x) :
    ∃ a b, as = a ++ x :: b ∧ ∀ y ∈ b, y.active = true → Text.sameName y.key key = false := by
  induction as using List.reverseRecOn with
  | nil => cases h
  | append_singleton as y ih =>
    rw [inForce?_append, inForce?_cons] at h
    by_cases hy : y.active = true ∧ Text.sameName y.key key = true
    · rw [if_pos hy] at h
      cases h
      exact ⟨as, [], rfl, by simp⟩
    · rw [if_neg hy] at h
      obtain ⟨a, b, rfl, hb⟩ := ih h
      refine ⟨a, b ++ [y], by simp, fun z hz hact => ?_⟩
      rcases List.mem_append.mp hz with hz | hz
      · exact hb z hz hact
      · rw [List.mem_singleton] at hz
        subst hz
        rw [← Bool.not_eq_true]
        exact fun hsame => hy ⟨hact, hsame⟩

/-- The last active assignment of a name is the setting under its own key. -/
theorem get?_settings_split {a b : List Assignment} {x : Assignment} (hact : x.active = true)
    (hb : ∀ y ∈ b, y.active = true → Text.sameName y.key x.key = false) :
    (settings (a ++ x :: b)).get? x.key = some x.value := by
  have hrest : b.filter (fun y => y.active && y.key = x.key) = [] := by
    rw [List.filter_eq_nil_iff]
    intro y hy hsame
    rw [Bool.and_eq_true, decide_eq_true_eq] at hsame
    have hne := hb y hy hsame.1
    rw [hsame.2, Text.sameName_refl] at hne
    cases hne
  rw [get?_settings, List.filter_append, List.filter_cons, hrest]
  simp [hact]

/-- Another value for one assignment leaves the settings under the other keys alone. -/
theorem get?_settings_of_ne {a b : List Assignment} {x : Assignment} (hact : x.active = true)
    (value : String) {key : String} (hne : x.key ≠ key) :
    (settings (a ++ ⟨x.key, value, true⟩ :: b)).get? key = (settings (a ++ x :: b)).get? key := by
  rw [get?_settings, get?_settings, List.filter_append, List.filter_append, List.filter_cons,
    List.filter_cons]
  simp [hact, hne]

theorem Upserts.exists_overwrite {key value : String} {as as' : List Assignment}
    (h : Upserts key value as as')
    (hactive : ∃ y ∈ as, y.active = true ∧ Text.sameName y.key key = true) :
    ∃ a x b, as = a ++ x :: b ∧ as' = a ++ ⟨x.key, value, true⟩ :: b ∧ x.active = true ∧
      Text.sameName x.key key = true ∧
      ∀ y ∈ b, y.active = true → Text.sameName y.key key = false := by
  obtain ⟨y, hy, hyact, hykey⟩ := hactive
  cases h with
  | overwrite a b x hkey hact hlast => exact ⟨a, x, b, rfl, rfl, hact, hkey, hlast⟩
  | enable a b x hkey hact hnone hlast =>
    have hother : y ∈ a ++ b := by
      rcases List.mem_append.mp hy with hy | hy
      · exact List.mem_append_left _ hy
      · rcases List.mem_cons.mp hy with rfl | hy
        · rw [hact] at hyact
          cases hyact
        · exact List.mem_append_right _ hy
    rw [hnone y hother hyact] at hykey
    cases hykey
  | add a b hnone =>
    rw [hnone y hy] at hykey
    cases hykey

/-! ## Many overwrites -/

/-- The keys of the assignments, and which of them are active. -/
def shape (as : List Assignment) : List (String × Bool) := as.map fun x => (x.key, x.active)

/-- Which spelling of a name is in force hangs on the keys only. -/
theorem inForce?_key_of_shape {as as' : List Assignment} (h : shape as = shape as')
    (key : String) :
    (inForce? as key).map Assignment.key = (inForce? as' key).map Assignment.key := by
  have hview : ∀ as : List Assignment, (inForce? as key).map Assignment.key =
      (((shape as).filter fun e => e.2 && Text.sameName e.1 key).getLast?).map Prod.fst := by
    intro as
    rw [shape, List.filter_map, List.getLast?_map, Option.map_map, inForce?]
    rfl
  rw [hview, hview, h]

/-- The last entry for a name. -/
def lastNamed? (es : List (String × String)) (key : String) : Option (String × String) :=
  (es.filter fun e => Text.sameName e.1 key).getLast?

theorem lastNamed?_concat (es : List (String × String)) (e : String × String) (key : String) :
    lastNamed? (es ++ [e]) key =
      if Text.sameName e.1 key = true then some e else lastNamed? es key := by
  rw [lastNamed?, List.filter_append]
  by_cases h : Text.sameName e.1 key = true
  · simp [h]
  · simp [h, lastNamed?]

theorem mem_of_lastNamed? {es : List (String × String)} {e : String × String} {key : String}
    (h : lastNamed? es key = some e) : e ∈ es ∧ Text.sameName e.1 key = true :=
  List.mem_filter.mp (List.mem_of_getLast? h)

/-- The setting under a key after some entries were written: the last entry for its name counts
when the key is the spelling in force. -/
def rewritten? (as : List Assignment) (done : List (String × String)) (key : String) :
    Option String :=
  if (inForce? as key).map Assignment.key = some key then
    ((lastNamed? done key).map Prod.snd).or ((settings as).get? key)
  else (settings as).get? key

/-- What holds of a document while the entries of a chain that was read are written onto it. -/
structure Rewritten (as : List Assignment) (done : List (String × String)) (doc : Document) :
    Prop where
  unbroken : doc.Unbroken
  shape : Document.shape doc.assignments = Document.shape as
  get? : ∀ key, (settings doc.assignments).get? key = rewritten? as done key

theorem rewritten_self {doc : Document} (h : doc.Unbroken) : Rewritten doc.assignments [] doc :=
  ⟨h, rfl, fun key => by simp [rewritten?, lastNamed?]⟩

theorem active_of_shape {as as' : List Assignment} (h : shape as' = shape as) {y : Assignment}
    (hy : y ∈ as) : ∃ y' ∈ as', y'.key = y.key ∧ y'.active = y.active := by
  have hmem : (y.key, y.active) ∈ shape as' := h ▸ List.mem_map_of_mem hy
  obtain ⟨y', hy', heq⟩ := List.mem_map.mp hmem
  rw [Prod.mk.injEq] at heq
  exact ⟨y', hy', heq⟩

theorem Rewritten.upsert {as : List Assignment} {done : List (String × String)} {doc : Document}
    (h : Rewritten as done doc) {key value : String}
    (hactive : ∃ y ∈ as, y.active = true ∧ Text.sameName y.key key = true) (hk : IsKey key)
    (hv : Text.trim value = value) (hkey : '\n' ∉ key.toList) (hvalue : '\n' ∉ value.toList)
    {place : Document → String → Document} (hplace : ∀ d line, Inserts d [line] (place d line)) :
    Rewritten as (done ++ [(key, value)]) (doc.upsert key value place) := by
  have hactive' : ∃ y ∈ doc.assignments, y.active = true ∧ Text.sameName y.key key = true := by
    obtain ⟨y, hy, hact, hsame⟩ := hactive
    obtain ⟨y', hy', hkey', hact'⟩ := active_of_shape h.shape hy
    exact ⟨y', hy', hact' ▸ hact, hkey' ▸ hsame⟩
  obtain ⟨a, x, b, hsplit, hsplit', hact, hxkey, hlast⟩ :=
    (upserts_upsert doc hk hv hplace).exists_overwrite hactive'
  have hforce : (inForce? as key).map Assignment.key = some x.key := by
    rw [← inForce?_key_of_shape h.shape, hsplit, inForce?_append, inForce?_cons,
      inForce?_eq_none_iff.mpr hlast, if_pos ⟨hact, hxkey⟩]
    rfl
  refine ⟨h.unbroken.upsert hkey hvalue hplace, ?_, fun k => ?_⟩
  · rw [← h.shape, hsplit, hsplit', Document.shape, Document.shape]
    simp [hact]
  · rw [rewritten?, lastNamed?_concat, hsplit']
    by_cases hk : x.key = k
    · -- the spelling in force takes the value
      have hsame : Text.sameName key k = true := by
        rw [← hk, Text.sameName_comm]
        exact hxkey
      have hlast' : ∀ y ∈ b, y.active = true → Text.sameName y.key x.key = false := by
        intro y hy hyact
        rw [← Bool.not_eq_true]
        intro hyx
        have hne := hlast y hy hyact
        rw [Text.sameName_trans hyx hxkey] at hne
        cases hne
      rw [← inForce?_congr as hsame, hforce, if_pos (congrArg some hk), if_pos hsame, ← hk]
      exact get?_settings_split (x := ⟨x.key, value, true⟩) rfl hlast'
    · rw [get?_settings_of_ne hact value hk, ← hsplit, h.get?, rewritten?]
      by_cases hsame : Text.sameName key k = true
      · have hforce' : (inForce? as k).map Assignment.key ≠ some k := by
          rw [← inForce?_congr as hsame, hforce]
          exact fun heq => hk (Option.some.inj heq)
        rw [if_neg hforce', if_neg hforce']
      · rw [if_neg hsame]

/-- A chain that was read gives new values to lines that are there, and comments out none. -/
theorem rewritten_update (o : Order) {c : Chain} {doc : Document} (hdoc : doc.Unbroken)
    (hc : c.Describes (settings doc.assignments)) :
    Rewritten doc.assignments (writes c) (update o c doc) := by
  have hread : ∀ y ∈ doc.assignments, '\n' ∉ y.key.toList ∧ '\n' ∉ y.value.toList := by
    intro y hy
    obtain ⟨l, hl, hy⟩ := mem_assignments.mp hy
    exact ⟨fun hm => hdoc l hl (Line.key_subset hy _ hm),
      fun hm => hdoc l hl (Line.value_subset hy _ hm)⟩
  obtain ⟨d, hupdate, hd⟩ := update_induction (Rewritten doc.assignments) o c (rewritten_self hdoc)
    (by
      rintro done ⟨key, value⟩ d place hpre hplace hd
      have hw : c.Writes key value := mem_writes.mp (hpre.subset (by simp))
      obtain ⟨k, v, hget, hkey, hvalue⟩ := hc.exists_setting hw
      have hmem := mem_of_get?_settings hget
      have hisKey : IsKey key := by
        obtain ⟨l, -, hl⟩ := mem_assignments.mp hmem
        exact (Assignment.isKey_of_active hl rfl).congr hkey
      refine hd.upsert ⟨_, hmem, rfl, hkey⟩ hisKey (trim_of_writes hw) ?_ ?_ hplace
      · rw [Text.sameName_comm] at hkey
        exact fun hm => (hread _ hmem).1 (Text.mem_of_sameName hkey (by decide) hm)
      · rcases hvalue with rfl | ⟨suite, enabled, -, -, rfl⟩
        · rw [Text.toList_trim]
          exact fun hm => (hread _ hmem).2 (Text.mem_of_mem_trimChars hm)
        · cases enabled <;> decide +kernel)
    (by
      intro done s d hs hpre hhas hd
      have hnil : sectionWrites s = [] := by
        by_contra hne
        obtain ⟨x, hx, n, suffix, hroute, hname⟩ := hc.exists_assignment hs hne
        obtain ⟨y, hy, hkey, -⟩ := active_of_shape hd.shape hx
        rw [hasSection_iff.mpr ⟨y, hy, n, suffix, by rw [hkey, hroute], hname⟩] at hhas
        cases hhas
      rwa [insertSection_of_nil hnil, hnil, List.append_nil])
  have hretire : d.map (retire c) = d.map id := List.map_congr_left fun l hl =>
    retire_eq_self fun x hx hact => by
      obtain ⟨y, hy, hkey, hyact⟩ := active_of_shape hd.shape.symm (mem_assignments.mpr ⟨l, hl, hx⟩)
      rw [← hkey]
      exact hc.keeps (mem_keys_settings.mpr ⟨y, hy, hyact.trans hact, rfl⟩)
  rw [hupdate, hretire, List.map_id]
  exact hd

/-- The keys of the settings hang on the keys of the assignments only. -/
theorem keys_settings_of_shape {as as' : List Assignment} (h : shape as = shape as') :
    (settings as).keys = (settings as').keys := by
  have hview : ∀ as : List Assignment, (entries as).map Prod.fst =
      (shape as).filterMap fun e => if e.2 = true then some e.1 else none := by
    intro as
    rw [entries, shape, List.map_filterMap, List.filterMap_map]
    refine List.filterMap_congr fun x _ => ?_
    cases hact : x.active <;> simp [hact]
  exact OrderedMap.keys_ofList_congr (by rw [hview, hview, h])

end Document

namespace Writer

open Document (assignments inForce? lastNamed? writes)

/-- A save of the text as it was read puts the value `u` under a key that holds `v`: the key is the
last active spelling of its name, and `u` is the last value that is written for that name. -/
def Overwrites (text key v u : String) : Prop :=
  inForce? (assignments (Text.lines text)) key = some ⟨key, v, true⟩ ∧
    (lastNamed? (writes (Chain.ofText text)) key).map Prod.snd = some u

/-- A save without edits keeps what is read exactly when every key that decides and is overwritten
is read from the new value as from its own. -/
theorem agrees_render_iff (w : Writer) (text : String) :
    (Chain.ofText (w.render (Chain.ofText text))).Agrees (Chain.ofText text) ↔
      ∀ key v u, Overwrites text key v u → Chain.Decides (Chain.settings text) key →
        Chain.place {} key u = Chain.place {} key v := by
  have hdoc : Document.Unbroken (Text.lines text) := fun l hl => Text.not_mem_of_mem_lines hl
  have hread := Chain.describes_ofText text
  rw [Document.settings_lines] at hread
  have hafter := Document.rewritten_update w.order hdoc hread
  have hrender : w.render (Chain.ofText text) = w.renderOnto text (Chain.ofText text) := rfl
  have hsettings : Chain.settings (w.render (Chain.ofText text)) = Document.settings
      (Document.update w.order (Chain.ofText text) (Text.lines text)).assignments := by
    rw [hrender, renderOnto, settings_assemble _ _ hafter.unbroken]
  rw [Chain.agrees_ofText_iff, hsettings, Document.settings_lines,
    Chain.agrees_ofSettings_iff (Document.keys_settings_of_shape hafter.shape)]
  constructor
  · intro h key v u hover hdecides
    obtain ⟨hforce, hlast⟩ := hover
    obtain ⟨a, b, hsplit, hb⟩ := Document.inForce?_split hforce
    have hv := Document.get?_settings_split (a := a) (x := ⟨key, v, true⟩) rfl hb
    rw [← hsplit] at hv
    refine h key u v ?_ hv hdecides
    rw [hafter.get?, Document.rewritten?, hforce, Option.map_some, if_pos rfl, hlast,
      Option.some_or]
  · intro h key u v hu hv hdecides
    rw [hafter.get?, Document.rewritten?] at hu
    split at hu
    · rename_i hself
      obtain ⟨x, hforce, rfl⟩ := Option.map_eq_some_iff.mp hself
      obtain ⟨-, hact, -⟩ := Document.inForce?_mem hforce
      obtain ⟨a, b, hsplit, hb⟩ := Document.inForce?_split hforce
      have hvalue := Document.get?_settings_split (a := a) hact hb
      rw [← hsplit, hv, Option.some.injEq] at hvalue
      cases hlast : (lastNamed? (writes (Chain.ofText text)) x.key).map Prod.snd with
      | none =>
        rw [hlast, Option.none_or, hv, Option.some.injEq] at hu
        rw [hu]
      | some u' =>
        rw [hlast, Option.some_or, Option.some.injEq] at hu
        subst hu
        refine h x.key v u' ⟨?_, hlast⟩ hdecides
        rw [hforce, hvalue, ← hact]
    · rw [hv, Option.some.injEq] at hu
      rw [hu]

/-- The property that is written last, `Mode`, overwrites the line of the other spelling. -/
theorem not_agrees_render_two_spellings :
    ¬(Chain.ofText (({} : Writer).render (Chain.ofText "a.Mode=binary\na.mode=source"))).Agrees
      (Chain.ofText "a.Mode=binary\na.mode=source") := by
  intro h
  have hmode := h.properties "a" "mode"
  revert hmode
  decide +kernel

/-- Where each active key has one spelling, a save without edits never changes what is read. -/
theorem agrees_render_of_spelledOnce (w : Writer) {text : String}
    (h : Document.SpelledOnce (Text.lines text)) :
    (Chain.ofText (w.render (Chain.ofText text))).Agrees (Chain.ofText text) := by
  rw [agrees_render_iff]
  rintro key v u ⟨hforce, hover⟩ -
  obtain ⟨⟨key', u'⟩, hlast, rfl⟩ := Option.map_eq_some_iff.mp hover
  obtain ⟨hwrite, hsame⟩ := Document.mem_of_lastNamed? hlast
  have hread := Chain.describes_ofText text
  rw [Document.settings_lines] at hread
  obtain ⟨k, v', hget, hkey, hvalue⟩ := hread.exists_setting (Document.mem_writes.mp hwrite)
  have hfound := Document.inForce?_of_setting h hget (Text.sameName_trans hkey hsame)
  rw [hforce, Option.some.injEq, Assignment.mk.injEq] at hfound
  obtain ⟨rfl, rfl, -⟩ := hfound
  rcases hvalue with rfl | ⟨suite, enabled, hroute, hflag, rfl⟩
  · rw [Document.trim_of_mem_assignments (Document.mem_of_get?_settings hget)]
  · simp only [Chain.place, hroute, hflag, readFlag_flagText]

end Writer

end BuildChain

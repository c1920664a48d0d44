import BuildChain.Proofs.Chain.Place
import BuildChain.Proofs.Document.Settling

/-!
# Where writes land

A value for a key goes onto the last active line of that name, else onto the last line of that name,
else onto a line of its own. When no two keys that are written have one name, each write lands among
the lines of its name as the text has them, and the lines of the other names stay as they are.
-/

namespace BuildChain.Document

/-! ## The lines of one name -/

/-- The assignments to a key, whatever its case. -/
def named (as : List Assignment) (key : String) : List Assignment :=
  as.filter fun x => Text.sameName x.key key

/-- The assignment that a value for a key is written onto. -/
def target? (as : List Assignment) (key : String) : Option Assignment :=
  (inForce? as key).or (named as key).getLast?

theorem mem_named {as : List Assignment} {key : String} {x : Assignment} :
    x ∈ named as key ↔ x ∈ as ∧ Text.sameName x.key key = true := List.mem_filter

theorem named_congr (as : List Assignment) {key key' : String}
    (h : Text.sameName key key' = true) : named as key = named as key' := by
  rw [Text.sameName_iff] at h
  simp only [named, Text.sameName, h]

theorem inForce?_named (as : List Assignment) (key : String) :
    inForce? (named as key) key = inForce? as key := by
  rw [inForce?, inForce?, named, List.filter_filter]
  congr 1
  refine List.filter_congr fun x _ => ?_
  cases Text.sameName x.key key <;> simp

theorem named_eq_nil_of_target? {as : List Assignment} {key : String}
    (h : target? as key = none) : named as key = [] :=
  List.getLast?_eq_none_iff.mp (Option.or_eq_none_iff.mp h).2

theorem target?_mem {as : List Assignment} {key : String} {x : Assignment}
    (h : target? as key = some x) : x ∈ named as key := by
  rcases Option.or_eq_some_iff.mp h with h | ⟨-, h⟩
  · obtain ⟨hmem, -, hname⟩ := inForce?_mem h
    exact mem_named.mpr ⟨hmem, hname⟩
  · exact List.mem_of_getLast? h

theorem exists_target? {as : List Assignment} {key : String} (h : named as key ≠ []) :
    ∃ x, target? as key = some x := by
  rw [← Option.isSome_iff_exists, ← Option.ne_none_iff_isSome]
  exact fun hnone => h (named_eq_nil_of_target? hnone)

/-! ## One write among the lines of its name -/

namespace Upserts

variable {key value : String} {as as' : List Assignment}

theorem named_of_not_same (h : Upserts key value as as') {k : String}
    (hk : Text.sameName key k = false) : named as' k = named as k := by
  have hother : ∀ n, Text.sameName n key = true → Text.sameName n k = false := by
    intro n hn
    rw [← Bool.not_eq_true]
    intro hnk
    rw [Text.sameName_comm] at hn
    rw [Text.sameName_trans hn hnk] at hk
    cases hk
  cases h with
  | overwrite a b x hkey hact hlast => simp [named, hother x.key hkey]
  | enable a b x hkey hact hnone hlast => simp [named, hother x.key hkey]
  | add a b hnone => simp [named, hk]

/-- A write is a write among the lines of its name. -/
theorem of_named (h : Upserts key value as as') :
    Upserts key value (named as key) (named as' key) := by
  have hsplit : ∀ (a b : List Assignment) (x : Assignment), Text.sameName x.key key = true →
      named (a ++ x :: b) key = named a key ++ x :: named b key := by
    intro a b x hx
    simp [named, hx]
  have hin : ∀ {as : List Assignment} {y : Assignment}, y ∈ named as key → y ∈ as :=
    fun hy => (mem_named.mp hy).1
  cases h with
  | overwrite a b x hkey hact hlast =>
    rw [hsplit a b x hkey, hsplit a b ⟨x.key, value, true⟩ hkey]
    exact .overwrite _ _ x hkey hact fun y hy => hlast y (hin hy)
  | enable a b x hkey hact hnone hlast =>
    rw [hsplit a b x hkey, hsplit a b ⟨x.key, value, true⟩ hkey]
    refine .enable _ _ x hkey hact (fun y hy => hnone y ?_) fun y hy => hlast y (hin hy)
    rw [named, named, ← List.filter_append] at hy
    exact hin hy
  | add a b hnone =>
    rw [hsplit a b ⟨key, value, true⟩ (Text.sameName_refl key), named, List.filter_append]
    refine .add _ _ fun y hy => hnone y ?_
    rw [← List.filter_append] at hy
    exact hin hy

end Upserts

/-! ## One write after the other -/

/-- The assignments when some entries have been written, seen name by name. -/
structure Landing (start : List Assignment) (done : List (String × String))
    (as : List Assignment) : Prop where
  untouched : ∀ key, (∀ e ∈ done, Text.sameName e.1 key = false) → named as key = named start key
  touched : ∀ e ∈ done, Upserts e.1 e.2 (named start e.1) (named as e.1)

variable {start as as' : List Assignment} {all done : List (String × String)}

theorem landing_start (start : List Assignment) : Landing start [] start :=
  ⟨fun _ _ => rfl, by simp⟩

theorem Landing.upserts (h : Landing start done as) (hall : DistinctKeys all)
    {e : String × String} (hpre : done ++ [e] <+: all) (hstep : Upserts e.1 e.2 as as') :
    Landing start (done ++ [e]) as' := by
  have hnew : ∀ e' ∈ done, Text.sameName e'.1 e.1 = false := fun e' he' => by
    rw [Text.sameName_comm]
    exact hall.not_same_of_done hpre he'
  constructor
  case untouched =>
    intro key hkey
    rw [hstep.named_of_not_same (hkey e (by simp))]
    exact h.untouched key fun e' he' => hkey e' (List.mem_append_left _ he')
  case touched =>
    intro e' he'
    rcases List.mem_append.mp he' with he' | he'
    · rw [hstep.named_of_not_same (hall.not_same_of_done hpre he')]
      exact h.touched e' he'
    · rw [List.mem_singleton.mp he', ← h.untouched e.1 hnew]
      exact hstep.of_named

/-! ## A whole update -/

/-- Each setting that a chain writes lands on a line that it is read from: on an active line whose
key decides about its place, or on a line that is commented out and leads there. -/
structure Lands (start : List Assignment) (c : Chain) : Prop where
  distinct : DistinctKeys (writes c)
  places : ∀ e ∈ puts c, ∀ x, target? start e.1.key = some x →
    (Route.ofKey x.key).samePlace e.1 = true ∧
      (x.active = true → Chain.Decides (settings start) x.key)

/-- What is written can stand on a line, and on a line of its own it leads where it is meant to. -/
structure Writable (start : List Assignment) (c : Chain) : Prop where
  lines : MakeLines (writes c)
  places : ∀ e ∈ puts c, target? start e.1.key = none →
    (Route.ofKey e.1.key).samePlace e.1 = true

theorem landing_update (o : Order) {c : Chain} {doc : Document} (hdoc : doc.Unbroken)
    (hlands : Lands doc.assignments c) (hwritable : Writable doc.assignments c) :
    ∃ d : Document, update o c doc = d.map (retire c) ∧ d.Unbroken ∧
      Landing doc.assignments (writes c) d.assignments := by
  have hstep : ∀ done e as as', done ++ [e] <+: writes c → Upserts e.1 e.2 as as' →
      Landing doc.assignments done as → Landing doc.assignments (done ++ [e]) as' :=
    fun done e as as' hpre hwrite hlanding => hlanding.upserts hlands.distinct hpre hwrite
  refine update_assignments o hdoc hwritable.lines (landing_start _) hstep ?_
  intro done s a b hs hpre hempty hlanding
  have hpart : DistinctKeys (done ++ sectionWrites s) := hlands.distinct.sublist hpre.sublist
  obtain ⟨-, hown, hothers⟩ := List.pairwise_append.mp hpart
  refine adds_block hstep hpre hown (fun e he y hy => ?_) hlanding
  -- a line of the name of a setting would be a line of the section
  have hsame : named (a ++ b) e.1 = named doc.assignments e.1 :=
    hlanding.untouched _ fun e' he' => hothers e' he' e he
  obtain ⟨e', he', rfl⟩ := List.mem_map.mp he
  have hput : (Route.property s.name e'.1, e'.2) ∈ puts c := by
    refine List.mem_append_left _ (List.mem_append_right _ (List.mem_flatMap.mpr ⟨s, hs, ?_⟩))
    exact List.mem_map.mpr ⟨e', he', rfl⟩
  rw [← Bool.not_eq_true]
  intro hname
  obtain ⟨x, hx⟩ := exists_target? (List.ne_nil_of_mem (hsame ▸ mem_named.mpr ⟨hy, hname⟩))
  have hxmem : x ∈ a ++ b := (mem_named.mp (hsame ▸ target?_mem hx)).1
  obtain ⟨hplace, -⟩ := hlands.places _ hput x hx
  rw [hempty x hxmem e'.1] at hplace
  cases hplace

/-! ## Spellings -/

/-- The spellings of a key, line by line. -/
def spellings (as : List Assignment) (key : String) : List String :=
  (named as key).map Assignment.key

/-- A key that has a line gets no other one. -/
theorem Upserts.spellings_eq {k value key : String} {as as' : List Assignment}
    (h : Upserts k value as as') (hne : spellings as key ≠ []) :
    spellings as' key = spellings as key := by
  by_cases hname : Text.sameName k key = true
  · rw [spellings, spellings, ← named_congr as' hname, ← named_congr as hname]
    rcases h with ⟨a, b, x, hx, -, -⟩ | ⟨a, b, x, hx, -, -, -⟩ | ⟨a, b, hnone⟩
    · simp [named, hx]
    · simp [named, hx]
    · have hnil : named (a ++ b) k = [] :=
        List.filter_eq_nil_iff.mpr fun y hy => by simp [hnone y hy]
      rw [spellings, ← named_congr _ hname, hnil] at hne
      exact absurd rfl hne
  · rw [spellings, h.named_of_not_same (Bool.not_eq_true _ ▸ hname), spellings]

/-- A write takes no active key away. -/
theorem Upserts.mem_keys {k value key : String} {as as' : List Assignment}
    (h : Upserts k value as as') (hkey : key ∈ (settings as).keys) :
    key ∈ (settings as').keys := by
  rw [mem_keys_settings] at hkey ⊢
  obtain ⟨x, hx, hact, rfl⟩ := hkey
  have hkept : ∀ (a b : List Assignment) (y : Assignment), x ∈ a ++ b → x ∈ a ++ y :: b := by
    intro a b y hmem
    rcases List.mem_append.mp hmem with hmem | hmem
    · exact List.mem_append_left _ hmem
    · exact List.mem_append_right _ (List.mem_cons_of_mem _ hmem)
  have hreplaced : ∀ (a b : List Assignment) (y : Assignment), x ∈ a ++ y :: b →
      ∃ x' ∈ a ++ ⟨y.key, value, true⟩ :: b, x'.active = true ∧ x'.key = x.key := by
    intro a b y hmem
    rcases List.mem_append.mp hmem with hmem | hmem
    · exact ⟨x, List.mem_append_left _ hmem, hact, rfl⟩
    · rcases List.mem_cons.mp hmem with rfl | hmem
      · exact ⟨_, List.mem_append_right _ List.mem_cons_self, rfl, rfl⟩
      · exact ⟨x, hkept a b _ (List.mem_append_right _ hmem), hact, rfl⟩
  rcases h with ⟨a, b, y, -, -, -⟩ | ⟨a, b, y, -, -, -, -⟩ | ⟨a, b, -⟩
  · exact hreplaced a b y hx
  · exact hreplaced a b y hx
  · exact ⟨x, hkept a b _ hx, hact, rfl⟩

/-- Once a text has a key in some spelling, no other spelling comes in, be it with a setting or with
a section. -/
theorem spellings_update (o : Order) {c : Chain} {doc : Document} (hdoc : doc.Unbroken)
    (hlines : MakeLines (writes c)) {key : String} (hne : spellings doc.assignments key ≠ [])
    (hsections : ∀ s ∈ c.sections, ∀ e ∈ sectionWrites s, Text.sameName e.1 key = true →
      ∃ k ∈ spellings doc.assignments key, ∃ p,
        (Route.ofKey k).samePlace (.property s.name p) = true) :
    ∃ d : Document, update o c doc = d.map (retire c) ∧ d.Unbroken ∧
      spellings d.assignments key = spellings doc.assignments key ∧
      ∀ k ∈ (settings doc.assignments).keys, k ∈ (settings d.assignments).keys := by
  refine update_assignments (P := fun _ as => spellings as key = spellings doc.assignments key ∧
    ∀ k ∈ (settings doc.assignments).keys, k ∈ (settings as).keys)
    o hdoc hlines ⟨rfl, fun _ hk => hk⟩ ?_ ?_
  · rintro done e as as' hpre hwrite ⟨hsame, hkeys⟩
    exact ⟨(hwrite.spellings_eq (hsame ▸ hne)).trans hsame,
      fun k hk => hwrite.mem_keys (hkeys k hk)⟩
  · rintro done s a b hs hpre hempty ⟨hsame, hkeys⟩
    have hnone : ((sectionWrites s).map assigned).filter
        (fun x => Text.sameName x.key key) = [] := by
      refine List.filter_eq_nil_iff.mpr fun y hy hname => ?_
      obtain ⟨e, he, rfl⟩ := List.mem_map.mp hy
      obtain ⟨k, hk, p, hplace⟩ := hsections s hs e he hname
      rw [← hsame] at hk
      obtain ⟨x, hx, rfl⟩ := List.mem_map.mp hk
      rw [hempty x (mem_named.mp hx).1 p] at hplace
      cases hplace
    constructor
    · rw [← hsame, spellings, spellings, named, named, List.filter_append, List.filter_append,
        hnone, List.append_nil, ← List.filter_append]
    · intro k hk
      obtain ⟨x, hx, hact, rfl⟩ := mem_keys_settings.mp (hkeys k hk)
      refine mem_keys_settings.mpr ⟨x, ?_, hact, rfl⟩
      rcases List.mem_append.mp hx with hx | hx
      · exact List.mem_append_left _ (List.mem_append_left _ hx)
      · exact List.mem_append_right _ hx

end BuildChain.Document

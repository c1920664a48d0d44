import BuildChain.Order
import BuildChain.Proofs.Chain.Place
import BuildChain.Proofs.Line

/-!
# Section names

A key leads to the section of the name before its first dot, unless the name and what follows make a
global key or the key of a flag. The names that sections have, and those of the standard order, make
a key of their own with each known property.
-/

namespace BuildChain

open Assignment (IsKey)

theorem Property.eq_of_sameName :
    ∀ p ∈ Property.known, ∀ q ∈ Property.known, Text.sameName p q = true → p = q := by decide

theorem GlobalKey.eq_of_sameName :
    ∀ k ∈ GlobalKey.known, ∀ k' ∈ GlobalKey.known, Text.sameName k k' = true → k = k' := by decide

/-- No global key ends like a known property. -/
theorem GlobalKey.not_same_suffix : ∀ k ∈ GlobalKey.known, ∀ e ∈ Text.splitFirst '.' k.toList,
    ∀ p ∈ Property.known, Text.sameName (String.ofList e.2) p = false := by decide

theorem GlobalKey.isKey {key : String} (h : key ∈ known) : IsKey key ∧ '\n' ∉ key.toList := by
  simp only [known, List.mem_cons, List.not_mem_nil, or_false] at h
  rcases h with rfl | rfl | rfl <;>
    exact ⟨⟨by decide, ⟨by simp [version, devVersion, recipients, Text.isSpace],
      by simp [version, devVersion, recipients, Text.isSpace]⟩, by decide, by decide⟩, by decide⟩

namespace Route

/-- A name that makes keys of its own with the known properties. -/
structure IsName (name : String) : Prop where
  nonempty : name.toList ≠ []
  dot : '.' ∉ name.toList
  equals : '=' ∉ name.toList
  feed : '\n' ∉ name.toList
  head : (name.toList.head?.all fun c => !Text.isSpace c && c != '#') = true
  not_global : name ≠ "global"

instance (name : String) : Decidable (IsName name) :=
  decidable_of_iff
    (name.toList ≠ [] ∧ '.' ∉ name.toList ∧ '=' ∉ name.toList ∧ '\n' ∉ name.toList ∧
      (name.toList.head?.all fun c => !Text.isSpace c && c != '#') = true ∧ name ≠ "global")
    ⟨fun ⟨h₁, h₂, h₃, h₄, h₅, h₆⟩ => ⟨h₁, h₂, h₃, h₄, h₅, h₆⟩,
      fun ⟨h₁, h₂, h₃, h₄, h₅, h₆⟩ => ⟨h₁, h₂, h₃, h₄, h₅, h₆⟩⟩

theorem isName_standard : ∀ name ∈ Order.standard.names, IsName name := by decide +kernel

/-- The part before the first dot of a key. -/
theorem eq_of_append_dot {a a' b b' : List Char} (ha : '.' ∉ a) (ha' : '.' ∉ a')
    (h : a ++ '.' :: b = a' ++ '.' :: b') : a = a' ∧ b = b' := by
  have hsplit := congrArg (Text.splitFirst '.') h
  rw [Text.splitFirst_append ha, Text.splitFirst_append ha'] at hsplit
  cases hsplit
  exact ⟨rfl, rfl⟩

theorem sameName_propertyKey_iff {n n' p p' : String} (hdot : '.' ∉ n.toList)
    (hdot' : '.' ∉ n'.toList) :
    Text.sameName (propertyKey n p) (propertyKey n' p') = true ↔
      Text.sameName n n' = true ∧ Text.sameName p p' = true := by
  have hlower : ∀ {cs : List Char}, '.' ∉ cs → '.' ∉ cs.map Char.toLower := by
    intro cs hcs hmem
    obtain ⟨c, hc, heq⟩ := List.mem_map.mp hmem
    rw [Text.toLower_eq_iff (by decide)] at heq
    exact hcs (heq ▸ hc)
  have hfold : ∀ n p : String, Text.fold (propertyKey n p) =
      Text.fold n ++ '.' :: Text.fold p := fun n p => by
    rw [Text.fold, toList_propertyKey, List.map_append, List.map_cons]
    rfl
  simp only [Text.sameName_iff, hfold]
  constructor
  · exact fun h => eq_of_append_dot (hlower hdot) (hlower hdot') h
  · rintro ⟨hn, hp⟩
    rw [hn, hp]

/-- A spelling of the key of a property splits into a spelling of the name and one of the suffix. -/
theorem exists_split_of_sameName {key n p : String} (hdot : '.' ∉ n.toList)
    (h : Text.sameName key (propertyKey n p) = true) :
    ∃ a b, Text.splitFirst '.' key.toList = some (a, b) ∧
      Text.sameName (String.ofList a) n = true ∧ Text.sameName (String.ofList b) p = true := by
  rw [Text.sameName_iff, Text.fold, Text.fold, toList_propertyKey, List.map_append,
    List.map_eq_append_iff] at h
  obtain ⟨a, rest, hkey, ha, hrest⟩ := h
  rw [List.map_cons, List.map_eq_cons_iff] at hrest
  obtain ⟨d, b, rfl, hd, hb⟩ := hrest
  have hlow : d = '.' := (Text.toLower_eq_iff (by decide)).mp hd
  have hfirst : '.' ∉ a := by
    intro hmem
    have hlower : ('.' : Char).toLower ∈ n.toList.map Char.toLower := ha ▸ List.mem_map_of_mem hmem
    obtain ⟨c, hc, heq⟩ := List.mem_map.mp hlower
    have hcdot : c = '.' := (Text.toLower_eq_iff (by decide)).mp heq
    exact hdot (hcdot ▸ hc)
  refine ⟨a, b, by rw [hkey, hlow, Text.splitFirst_append hfirst], ?_, ?_⟩
  · rw [Text.sameName_iff, Text.fold, Text.fold, String.toList_ofList, ha]
  · rw [Text.sameName_iff, Text.fold, Text.fold, String.toList_ofList, hb]

theorem global_prefix_iff {name suffix : String} (hdot : '.' ∉ name.toList) :
    "global.".toList.isPrefixOf (propertyKey name suffix).toList = true ↔ name = "global" := by
  rw [List.isPrefixOf_iff_prefix, toList_propertyKey]
  constructor
  · rintro ⟨rest, h⟩
    have hglobal : "global".toList ++ '.' :: rest = name.toList ++ '.' :: suffix.toList := h
    exact String.toList_inj.mp (eq_of_append_dot (by decide) hdot hglobal).1.symm
  · rintro rfl
    exact ⟨suffix.toList, rfl⟩

/-- A name and a suffix make a key that leads to a property, unless they make the key of a global
setting or of a flag. -/
theorem ofKey_propertyKey {name suffix : String} (hname : name.toList ≠ [])
    (hdot : '.' ∉ name.toList) (hsuffix : suffix.toList ≠ []) (hglobal : name ≠ "global")
    (hrun : name = "tests" → ¬".run".toList <:+ suffix.toList) :
    ofKey (propertyKey name suffix) = property name suffix := by
  have hprefix : ¬"global.".toList.isPrefixOf (propertyKey name suffix).toList = true :=
    fun h => hglobal ((global_prefix_iff hdot).mp h)
  have hsuite : suite? (propertyKey name suffix).toList = none := by
    refine Option.eq_none_iff_forall_ne_some.mpr fun suite hsuite => ?_
    obtain ⟨-, hkey⟩ := suite?_eq_some_iff.mp hsuite
    have htests : name.toList ++ '.' :: suffix.toList =
        "tests".toList ++ '.' :: (suite ++ ".run".toList) := by
      rw [← toList_propertyKey, hkey, List.append_assoc]
      rfl
    obtain ⟨hn, hend⟩ := eq_of_append_dot hdot (by decide) htests
    exact hrun (String.toList_inj.mp hn) (hend ▸ List.suffix_append suite ".run".toList)
  obtain ⟨c, cs, hcs⟩ := List.exists_cons_of_ne_nil hname
  obtain ⟨d, ds, hds⟩ := List.exists_cons_of_ne_nil hsuffix
  have hsplit : Text.splitFirst '.' (propertyKey name suffix).toList = some (c :: cs, d :: ds) := by
    rw [toList_propertyKey, Text.splitFirst_append hdot, hcs, hds]
  unfold ofKey
  rw [if_neg hprefix, hsuite, hsplit]
  dsimp only
  rw [← hcs, ← hds, String.ofList_toList, String.ofList_toList]

/-- Every spelling of the key of a property leads to a section of its name, if the name is no
spelling of `global` and the key none of the key of a flag. -/
theorem exists_property_of_sameName {key name suffix : String}
    (hroute : ofKey (propertyKey name suffix) = property name suffix)
    (hglobal : Text.sameName name "global" = false)
    (hrun : Text.sameName name "tests" = true → ¬".run".toList <:+ Text.fold suffix)
    (h : Text.sameName key (propertyKey name suffix) = true) :
    ∃ n p, ofKey key = property n p ∧ Text.sameName n name = true := by
  obtain ⟨hname, hsuffix⟩ := nonempty_of_ofKey hroute
  obtain ⟨a, b, hsplit, ha, hb⟩ := exists_split_of_sameName (ofKey_eq_property hroute).2 h
  obtain ⟨hkey, hdot⟩ := Text.splitFirst_eq_some hsplit
  have hkey' : key = propertyKey (String.ofList a) (String.ofList b) := by
    rw [← String.toList_inj, toList_propertyKey, hkey, String.toList_ofList, String.toList_ofList]
  have hnonempty {s t : String} (hsame : Text.sameName s t = true) (ht : t.toList ≠ []) :
      s.toList ≠ [] := by
    intro hnil
    rw [Text.sameName_iff, Text.fold, hnil, List.map_nil, Text.fold, eq_comm, List.map_eq_nil_iff]
      at hsame
    exact ht hsame
  refine ⟨String.ofList a, String.ofList b, ?_, ha⟩
  rw [hkey']
  refine ofKey_propertyKey (hnonempty ha hname) (by rwa [String.toList_ofList])
    (hnonempty hb hsuffix) (fun heq => ?_) fun heq hend => ?_
  · rw [Text.sameName_comm, heq] at ha
    rw [ha] at hglobal
    cases hglobal
  · rw [Text.sameName_comm, heq] at ha
    rw [Text.sameName_iff] at hb
    refine hrun ha ?_
    rw [← hb]
    exact hend.map Char.toLower

/-- The name of a section is one. -/
theorem isName_of_ofKey {key name suffix : String} (hk : IsKey key) (hfeed : '\n' ∉ key.toList)
    (h : ofKey key = property name suffix) : IsName name := by
  obtain ⟨rfl, hdot⟩ := ofKey_eq_property h
  have hnotGlobal : ¬"global.".toList.isPrefixOf (propertyKey name suffix).toList = true := by
    intro hprefix
    rw [ofKey_globalKey hprefix] at h
    cases h
  obtain ⟨hnonempty, -⟩ := nonempty_of_ofKey h
  obtain ⟨c, cs, hname⟩ := List.exists_cons_of_ne_nil hnonempty
  have hhead : (propertyKey name suffix).toList.head? = some c := by
    rw [toList_propertyKey, hname]
    rfl
  have hequals := hk.not_mem
  rw [toList_propertyKey, List.mem_append, not_or] at hfeed hequals
  refine ⟨hnonempty, hdot, hequals.1, hfeed.1, ?_, fun hglobal => ?_⟩
  · have hhash : c ≠ '#' := fun heq => hk.head (heq ▸ hhead)
    simp [hname, hk.tight.head c hhead, hhash]
  · exact hnotGlobal ((global_prefix_iff hdot).mpr hglobal)

namespace IsName

variable {name p : String}

theorem isKey (h : IsName name) (hp : p ∈ Property.known) :
    IsKey (propertyKey name p) ∧ '\n' ∉ (propertyKey name p).toList := by
  have hlast : ∀ p ∈ Property.known, p.toList ≠ [] ∧ '=' ∉ p.toList ∧ '\n' ∉ p.toList ∧
      (p.toList.getLast?.all fun c => !Text.isSpace c) = true := by decide
  obtain ⟨hne, hequals, hfeed, hend⟩ := hlast p hp
  obtain ⟨c, cs, hname⟩ := List.exists_cons_of_ne_nil h.nonempty
  have hhead := h.head
  rw [hname] at hhead
  simp only [List.head?_cons, Option.all_some, Bool.and_eq_true, Bool.not_eq_true', bne_iff_ne]
    at hhead
  rw [toList_propertyKey]
  refine ⟨⟨?_, ⟨?_, ?_⟩, ?_, ?_⟩, ?_⟩
  · simp [toList_propertyKey]
  · intro d hd
    rw [toList_propertyKey, hname] at hd
    cases hd
    exact hhead.1
  · intro d hd
    rw [toList_propertyKey, List.getLast?_append_of_ne_nil _ (by simp),
      List.getLast?_cons_of_ne_nil hne] at hd
    rw [hd] at hend
    simpa using hend
  · simp [toList_propertyKey, h.equals, hequals]
  · rw [toList_propertyKey, hname]
    rintro heq
    cases heq
    exact hhead.2 rfl
  · simp [h.feed, hfeed]

/-- With a known property, a name makes a key that leads to the property of its section. -/
theorem ofKey (h : IsName name) (hp : p ∈ Property.known) :
    Route.ofKey (propertyKey name p) = property name p := by
  have hknown : ∀ p ∈ Property.known,
      p.toList ≠ [] ∧ ".run".toList.isSuffixOf p.toList = false := by decide
  obtain ⟨hne, hrun⟩ := hknown p hp
  refine ofKey_propertyKey h.nonempty h.dot hne h.not_global fun _ hsuffix => ?_
  rw [← List.isSuffixOf_iff_suffix, hrun] at hsuffix
  cases hsuffix

theorem not_sameName_global (h : IsName name) {key : String} (hk : key ∈ GlobalKey.known)
    (hp : p ∈ Property.known) : Text.sameName key (propertyKey name p) = false := by
  rw [← Bool.not_eq_true]
  intro hsame
  obtain ⟨a, b, hsplit, -, hb⟩ := exists_split_of_sameName h.dot hsame
  rw [GlobalKey.not_same_suffix key hk (a, b) hsplit p hp] at hb
  cases hb

end IsName

/-! ## Known places -/

/-- The places that have a key of their own whatever a text holds. -/
inductive IsKnown : Route → Prop
  | global {key : String} (hk : key ∈ GlobalKey.known) : IsKnown (global key)
  | property {name p : String} (hn : IsName name) (hp : p ∈ Property.known) :
      IsKnown (property name p)

namespace IsKnown

variable {r r' : Route}

theorem isKey (h : IsKnown r) : IsKey r.key ∧ '\n' ∉ r.key.toList := by
  cases h with
  | global hk => exact GlobalKey.isKey hk
  | property hn hp => exact hn.isKey hp

theorem ofKey (h : IsKnown r) : Route.ofKey r.key = r := by
  cases h with
  | global hk => exact GlobalKey.ofKey_of_known hk
  | property hn hp => exact hn.ofKey hp

/-- Known places with one key, whatever the case, are one place. -/
theorem samePlace (h : IsKnown r) (h' : IsKnown r')
    (hsame : Text.sameName r.key r'.key = true) : r.samePlace r' = true := by
  cases h with
  | global hk =>
    cases h' with
    | global hk' =>
      rw [GlobalKey.eq_of_sameName _ hk _ hk' hsame]
      exact samePlace_refl _
    | property hn' hp' =>
      exact absurd hsame (Bool.not_eq_true _ ▸ hn'.not_sameName_global hk hp')
  | property hn hp =>
    cases h' with
    | global hk' =>
      rw [Text.sameName_comm] at hsame
      exact absurd hsame (Bool.not_eq_true _ ▸ hn.not_sameName_global hk' hp)
    | property hn' hp' =>
      obtain ⟨hname, hsuffix⟩ := (sameName_propertyKey_iff hn.dot hn'.dot).mp hsame
      rw [Property.eq_of_sameName _ hp _ hp' hsuffix]
      exact samePlace_property_iff.mpr ⟨hname, rfl⟩

end IsKnown

end Route

end BuildChain

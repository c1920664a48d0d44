import BuildChain.Proofs.Repair.Saving

/-!
# Texts that spell their keys alike

Where the active keys of a text have one spelling each, where keys that differ in case only lead to
one place, and where the known settings have their own spelling, all that fixing writes lands.
-/

namespace BuildChain

open Document (assignments puts Lands)
open Route (IsName)

/-- How the keys of a text are spelled so that nothing that is written goes astray. -/
structure Document.WellSpelled (doc : Document) : Prop where
  once : doc.SpelledOnce
  places : ∀ x ∈ doc.assignments, ∀ y ∈ doc.assignments, Text.sameName x.key y.key = true →
    (Route.ofKey x.key).samePlace (Route.ofKey y.key) = true
  globals : ∀ x ∈ doc.assignments, ∀ key ∈ GlobalKey.known, Text.sameName x.key key = true →
    x.key = key
  suffixes : ∀ x ∈ doc.assignments, ∀ e ∈ Text.splitFirst '.' x.key.toList,
    ∀ p ∈ Property.known, Text.sameName (String.ofList e.2) p = true →
      Route.ofKey x.key = .property (String.ofList e.1) p

instance (doc : Document) : Decidable doc.WellSpelled :=
  decidable_of_iff
    (doc.SpelledOnce ∧
      (∀ x ∈ doc.assignments, ∀ y ∈ doc.assignments, Text.sameName x.key y.key = true →
        (Route.ofKey x.key).samePlace (Route.ofKey y.key) = true) ∧
      (∀ x ∈ doc.assignments, ∀ key ∈ GlobalKey.known, Text.sameName x.key key = true →
        x.key = key) ∧
      ∀ x ∈ doc.assignments, ∀ e ∈ Text.splitFirst '.' x.key.toList,
        ∀ p ∈ Property.known, Text.sameName (String.ofList e.2) p = true →
          Route.ofKey x.key = .property (String.ofList e.1) p)
    ⟨fun ⟨h₁, h₂, h₃, h₄⟩ => ⟨h₁, h₂, h₃, h₄⟩, fun ⟨h₁, h₂, h₃, h₄⟩ => ⟨h₁, h₂, h₃, h₄⟩⟩

namespace Chain.Descends

variable {text : String} {cat : Catalog} {c : Chain}

/-- A line that has the key of a setting in whatever case leads to its place. -/
theorem samePlace_of_mem_puts (h : (ofText text).Descends cat c)
    (hspelled : Document.WellSpelled (Text.lines text)) (hnames : ∀ n ∈ cat.order.names, IsName n)
    (hdist : c.DistinctNames) (hsuites : ∀ suite ∈ c.flags.keys, suite ∉ c.rawFlags.keys)
    {e : Route × String} (he : e ∈ puts c) {x : Assignment}
    (hx : x ∈ assignments (Text.lines text)) (hsame : Text.sameName x.key e.1.key = true) :
    (Route.ofKey x.key).samePlace e.1 = true := by
  obtain ⟨r, value⟩ := e
  rcases h.held_or_known hnames hdist hsuites he with hsome | hknown
  · obtain ⟨y, hy, -, hplace⟩ := exists_line_of_held? hsome
    have hyname := Route.sameName_key hplace (Document.ne_nowhere_of_mem_puts he)
    rw [Text.sameName_comm] at hyname
    have hxy := hspelled.places x hx y hy (Text.sameName_trans hsame hyname)
    exact Route.samePlace_trans hxy hplace
  · cases hknown with
    | global hk =>
      rw [hspelled.globals x hx _ hk hsame, GlobalKey.ofKey_of_known hk]
      exact Route.samePlace_refl _
    | property hn hp =>
      obtain ⟨a, b, hsplit, ha, hb⟩ := Route.exists_split_of_sameName hn.dot hsame
      rw [hspelled.suffixes x hx (a, b) hsplit _ hp hb]
      exact Route.samePlace_property_iff.mpr ⟨ha, rfl⟩

/-- Two settings with one key, whatever the case, are one setting. -/
theorem samePlace_of_same_key (h : (ofText text).Descends cat c)
    (hspelled : Document.WellSpelled (Text.lines text)) (hnames : ∀ n ∈ cat.order.names, IsName n)
    (hdist : c.DistinctNames) (hsuites : ∀ suite ∈ c.flags.keys, suite ∉ c.rawFlags.keys)
    {e e' : Route × String} (he : e ∈ puts c) (he' : e' ∈ puts c)
    (hsame : Text.sameName e.1.key e'.1.key = true) : e.1.samePlace e'.1 = true := by
  -- a line that one of them was read from is a line for the other one
  have hline : ∀ {e e' : Route × String}, e ∈ puts c → e' ∈ puts c →
      Text.sameName e.1.key e'.1.key = true → ((ofText text).held? e.1).isSome = true →
        e.1.samePlace e'.1 = true := by
    intro e e' he he' hsame hsome
    obtain ⟨x, hx, -, hplace⟩ := exists_line_of_held? hsome
    have hname := Route.sameName_key hplace (Document.ne_nowhere_of_mem_puts he)
    exact Route.samePlace_trans (Route.samePlace_symm hplace)
      (h.samePlace_of_mem_puts hspelled hnames hdist hsuites he' hx
        (Text.sameName_trans hname hsame))
  rcases h.held_or_known hnames hdist hsuites he with hsome | hknown
  · exact hline he he' hsame hsome
  · rcases h.held_or_known hnames hdist hsuites he' with hsome' | hknown'
    · rw [Text.sameName_comm] at hsame
      exact Route.samePlace_symm (hline he' he hsame hsome')
    · exact hknown.samePlace hknown' hsame

/-- What fixing makes of a chain lands on the text that it was read from. -/
theorem lands (h : (ofText text).Descends cat c)
    (hspelled : Document.WellSpelled (Text.lines text)) (hnames : ∀ n ∈ cat.order.names, IsName n)
    (hdist : c.DistinctNames) (hsuites : ∀ suite ∈ c.flags.keys, suite ∉ c.rawFlags.keys) :
    Lands (assignments (Text.lines text)) c := by
  constructor
  case distinct =>
    rw [← Document.map_puts, Document.DistinctKeys, List.pairwise_map]
    refine (Document.distinct_puts hdist hsuites).imp_of_mem fun {e e'} he he' hplace => ?_
    rw [← Bool.not_eq_true]
    intro hsame
    rw [h.samePlace_of_same_key hspelled hnames hdist hsuites he he' hsame] at hplace
    cases hplace
  case places =>
    intro e he x htarget
    obtain ⟨hx, hsame⟩ := Document.mem_named.mp (Document.target?_mem htarget)
    have hplace := h.samePlace_of_mem_puts hspelled hnames hdist hsuites he hx hsame
    refine ⟨hplace, fun hactive => ?_⟩
    have hmem := Document.mem_keys_settings.mpr ⟨x, hx, hactive, rfl⟩
    refine Chain.decides_of_unique hmem fun k hk hk' => ?_
    obtain ⟨y, hy, hyactive, rfl⟩ := Document.mem_keys_settings.mp hk
    have hyname := Route.sameName_key (Route.samePlace_trans hk' hplace)
      (Document.ne_nowhere_of_mem_puts he)
    rw [Text.sameName_comm] at hsame
    exact hspelled.once y hy x hx hyactive hactive (Text.sameName_trans hyname hsame)

end Chain.Descends

end BuildChain

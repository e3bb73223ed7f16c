import Mathlib.Data.List.TakeWhile
import SynaMcp.Lib.GoStrings

/-! The names under which the MCP proxy shows what its servers have. -/
namespace SynaMcp.Proxy
open GoStrings List

/-- One rune more for the builder, and whether it ends in a dash. -/
def slugStep (b : List Char × Bool) (r : Char) : List Char × Bool :=
  if 'a' ≤ r ∧ r ≤ 'z' ∨ '0' ≤ r ∧ r ≤ '9' then (b.1 ++ [r], false)
  else if b.2 = false ∧ b.1 ≠ [] then (b.1 ++ ['-'], true) else b

def slugify (toLower : String → String) (s : String) : String :=
  trimFunc (· == '-') (String.ofList ((toLower (trimSpace s)).toList.foldl slugStep ([], false)).1)

def namespacedTool (slug toolName : String) : String := slug ++ "__" ++ toolName

def parseNamespacedTool (name : String) : Option (String × String) :=
  (cut name "__").filter fun r => r.1 ≠ "" ∧ r.2 ≠ ""

def resourcePrefix : String := "syna-mcp/"

def namespacedResourceURI (slug upstreamURI : String) : String :=
  resourcePrefix ++ slug ++ "/" ++ trimPrefix upstreamURI "/"

def parseNamespacedResourceURI (uri : String) : Option (String × String) :=
  if hasPrefix uri resourcePrefix then
    (splitFirst (trimPrefix uri resourcePrefix) '/').filter fun r => r.1 ≠ "" ∧ r.2 ≠ ""
  else none

abbrev IsSlugRune (r : Char) : Prop := 'a' ≤ r ∧ r ≤ 'z' ∨ '0' ≤ r ∧ r ≤ '9'

/-- Letters and digits, with single dashes between them. -/
inductive IsSlug : List Char → Prop where
  | nil : IsSlug []
  | rune {t r} (slug : IsSlug t) (plain : IsSlugRune r) : IsSlug (t ++ [r])
  | dashed {t r} (slug : IsSlug t) (some : t ≠ []) (plain : IsSlugRune r) : IsSlug (t ++ ['-', r])

namespace IsSlug
variable {t : List Char}

theorem runes (h : IsSlug t) : ∀ c ∈ t, IsSlugRune c ∨ c = '-' := by
  induction h with
  | nil => simp
  | rune _ plain ih | dashed _ _ plain ih =>
    intro c mem
    simp only [mem_append, mem_cons, not_mem_nil, or_false] at mem
    grind

theorem not_mem {c : Char} (h : IsSlug t) (other : ¬ (IsSlugRune c ∨ c = '-')) : c ∉ t :=
  fun mem => other (h.runes c mem)

theorem last (h : IsSlug t) : t = [] ∨ ∃ u r, IsSlugRune r ∧ t = u ++ [r] := by
  cases h with
  | nil => exact .inl rfl
  | rune _ plain => exact .inr ⟨_, _, plain, rfl⟩
  | @dashed t r _ _ plain => exact .inr ⟨t ++ ['-'], r, plain, by simp⟩

theorem first (h : IsSlug t) : t = [] ∨ ∃ r u, IsSlugRune r ∧ t = r :: u := by
  induction h with
  | nil => exact .inl rfl
  | @rune t r _ plain ih =>
    rcases ih with rfl | ⟨c, u, plain', rfl⟩
    · exact .inr ⟨r, [], plain, rfl⟩
    · exact .inr ⟨c, u ++ [r], plain', rfl⟩
  | @dashed t r _ some _ ih =>
    obtain ⟨c, u, plain', rfl⟩ := ih.resolve_left some
    exact .inr ⟨c, u ++ ['-', r], plain', rfl⟩

theorem trim (h : IsSlug t) {f : Char → Bool} (keeps : ∀ r, IsSlugRune r → f r = false) (dashes : List Char)
    (drops : ∀ c ∈ dashes, f c = true) : trimFunc f (String.ofList (t ++ dashes)) = String.ofList t := by
  have right : ((t ++ dashes).reverse.dropWhile f).reverse = t := by
    rw [reverse_append, dropWhile_append_of_pos fun c mem => drops c (mem_reverse.mp mem)]
    rcases h.last with rfl | ⟨u, r, plain, rfl⟩
    · rfl
    · rw [reverse_append, reverse_singleton, singleton_append, dropWhile_cons, keeps r plain]
      simp
  simp only [trimFunc, trimLeftFunc, trimRightFunc, String.toList_ofList]
  rcases h.first with rfl | ⟨r, u, plain, rfl⟩
  · rw [nil_append, dropWhile_eq_nil_iff.mpr drops]
    rfl
  · rw [cons_append, dropWhile_cons, keeps r plain, ← cons_append]
    exact congrArg _ right

theorem fold (h : IsSlug t) : t.foldl slugStep ([], false) = (t, false) := by
  induction h with
  | nil => rfl
  | rune _ plain ih => rw [foldl_append, ih, foldl_cons, slugStep, if_pos plain, foldl_nil]
  | @dashed t r _ some plain ih =>
    rw [foldl_append, ih]
    simp [slugStep, some, plain]

end IsSlug

/-- The builder has a slug, and a dash behind it if it says so. -/
theorem slugStep_built (runes : List Char) (b : List Char × Bool) {u} (slug : IsSlug u)
    (built : b.1 = u ++ (if b.2 then ['-'] else [])) (dash : b.2 = true → u ≠ []) :
    ∃ u', IsSlug u' ∧ ((runes.foldl slugStep b).1 = u' ∨ (runes.foldl slugStep b).1 = u' ++ ['-']) := by
  induction runes generalizing b u with
  | nil =>
    refine ⟨u, slug, ?_⟩
    rw [foldl_nil, built]
    split <;> simp
  | cons r runes ih =>
    rw [foldl_cons, slugStep]
    split
    · next plain =>
      cases ended : b.2 with
      | false => exact ih _ (.rune slug plain) (by simp [built, ended]) (by simp)
      | true => exact ih _ (.dashed slug (dash ended) plain) (by simp [built, ended]) (by simp)
    · split
      · next new =>
        rw [new.1] at built
        exact ih _ slug (by simpa using built) fun _ => by simpa [built] using new.2
      · exact ih b slug built dash

theorem IsSlugRune.bounds {r} (h : IsSlugRune r) : 97 ≤ r.toNat ∧ r.toNat ≤ 122 ∨ 48 ≤ r.toNat ∧ r.toNat ≤ 57 := h

theorem ne_dash (r : Char) (h : IsSlugRune r) : (r == '-') = false := by
  rw [beq_eq_false_iff_ne]
  rintro rfl
  revert h
  decide

theorem isSlug_slugify {toLower s} : IsSlug (slugify toLower s).toList := by
  obtain ⟨u, slug, rest⟩ := slugStep_built (toLower (trimSpace s)).toList ([], false) .nil rfl (by simp)
  have same : slugify toLower s = String.ofList u := by
    rw [slugify]
    rcases rest with is | is
    · simpa [is] using slug.trim ne_dash [] (by simp)
    · simpa [is] using slug.trim ne_dash ['-'] (by simp)
  rw [same, String.toList_ofList]
  exact slug

theorem slugify_slug {lower} {s : String} (h : IsSlug s.toList) : slugify (toLower lower) s = s := by
  have spaces : trimSpace s = s := by
    have kept := h.trim (f := isSpace) (fun r plain => ?_) [] (by simp)
    · simpa [trimSpace] using kept
    · have bounds := plain.bounds
      simp only [isSpace, Bool.or_eq_false_iff, Bool.and_eq_false_iff, decide_eq_false_iff_not, beq_eq_false_iff_ne]
      omega
  have lowered : toLower lower s = s := by
    refine toLower_eq_self fun c mem => ?_
    rcases h.runes c mem with plain | rfl
    · have bounds := plain.bounds
      omega
    · decide
  rw [slugify, spaces, lowered, h.fold]
  simpa using h.trim ne_dash [] (by simp)

theorem cutRunes_slug {slug tool : List Char} (h : '_' ∉ slug) :
    cutRunes ['_', '_'] (slug ++ '_' :: '_' :: tool) = some (slug, tool) := by
  induction slug with
  | nil => simp [cutRunes]
  | cons c slug ih =>
    obtain ⟨other, plain⟩ := not_or.mp (mt mem_cons.mpr h)
    simp [cutRunes, ih plain, other]

/-- Slugs have their form, stay as they are, and are told apart from the names of tools behind them. -/
theorem slugs_are_safe (lower : Char → Char) (s : String) :
    IsSlug (slugify (toLower lower) s).toList ∧
    slugify (toLower lower) (slugify (toLower lower) s) = slugify (toLower lower) s ∧
    (slugify (toLower lower) s ≠ "" → ∀ tool ≠ "",
      parseNamespacedTool (namespacedTool (slugify (toLower lower) s) tool) = some (slugify (toLower lower) s, tool)) := by
  refine ⟨isSlug_slugify, slugify_slug isSlug_slugify, fun named tool given => ?_⟩
  have plain : '_' ∉ (slugify (toLower lower) s).toList := isSlug_slugify.not_mem (by decide)
  simp [parseNamespacedTool, namespacedTool, cut, cutRunes_slug plain, named, given]

/-- What `Slugify` makes of the name of a server, where that is not empty. -/
structure Slug (toLower : String → String) where
  name : String
  named : slugify toLower name ≠ ""

namespace Slug

def val {toLower} (s : Slug toLower) : String := slugify toLower s.name

theorem slash {toLower} (s : Slug toLower) : '/' ∉ s.val.toList := isSlug_slugify.not_mem (by decide)

end Slug

theorem trimPrefix_eq_self_iff {uri} : trimPrefix uri "/" = uri ↔ hasPrefix uri "/" = false := by
  unfold trimPrefix
  split
  · next starts =>
    refine iff_of_false (fun same => ?_) (by simp [starts])
    obtain ⟨_, list⟩ := isPrefixOf_iff_prefix.mp starts
    have lengths := congrArg (fun t => t.toList.length) same
    simp [← list] at lengths
  · next other => exact iff_of_true rfl (eq_false_of_ne_true other)

theorem parse_namespaced_iff {slug uri} (plain : '/' ∉ slug.toList) (named : slug ≠ "") (given : uri ≠ "") :
    parseNamespacedResourceURI (namespacedResourceURI slug uri) = some (slug, uri) ↔ hasPrefix uri "/" = false := by
  have starts : hasPrefix (namespacedResourceURI slug uri) resourcePrefix = true := by
    simp [hasPrefix, namespacedResourceURI, String.toList_append]
  have cut : trimPrefix (namespacedResourceURI slug uri) resourcePrefix = slug ++ "/" ++ trimPrefix uri "/" := by
    rw [trimPrefix, if_pos starts]
    apply String.toList_injective
    simp [namespacedResourceURI]
  have parts : (slug ++ "/" ++ trimPrefix uri "/").toList.span (· ≠ '/') =
      (slug.toList, '/' :: (trimPrefix uri "/").toList) := by
    have passed : ∀ c ∈ slug.toList, decide (c ≠ '/') = true := by
      intro c mem
      exact decide_eq_true (ne_of_mem_of_not_mem mem plain)
    rw [span_eq_takeWhile_dropWhile, String.toList_append, String.toList_append, append_assoc]
    rw [takeWhile_append_of_pos passed, dropWhile_append_of_pos passed]
    simp
  rw [parseNamespacedResourceURI, if_pos starts, cut, splitFirst, parts, ← trimPrefix_eq_self_iff]
  simpa [Option.filter_eq_some_iff, named] using fun same => same ▸ given

/-- A resource is read under the URI that it was discovered with, and no two have one name,
exactly where the URIs do not start with a slash. -/
theorem resource_uris_round_trip_iff {toLower} (s s' : Slug toLower) (u u' : {uri : String // uri ≠ ""}) :
    (parseNamespacedResourceURI (namespacedResourceURI s.val u) = some (s.val, ↑u) ∧
      parseNamespacedResourceURI (namespacedResourceURI s'.val u') = some (s'.val, ↑u') ∧
      (namespacedResourceURI s.val u = namespacedResourceURI s'.val u' → s.val = s'.val ∧ u = u')) ↔
    hasPrefix u "/" = false ∧ hasPrefix u' "/" = false := by
  have parsed := parse_namespaced_iff s.slash s.named u.property
  have parsed' := parse_namespaced_iff s'.slash s'.named u'.property
  rw [parsed, parsed']
  refine ⟨fun h => ⟨h.1, h.2.1⟩, fun h => ⟨h.1, h.2, fun same => ?_⟩⟩
  have both := (parsed.mpr h.1).symm.trans ((congrArg _ same).trans (parsed'.mpr h.2))
  exact (Prod.mk.inj (Option.some.inj both)).imp_right Subtype.ext

theorem leading_slash_is_lost :
    slugify id "a" = "a" ∧ namespacedResourceURI "a" "/x" = namespacedResourceURI "a" "x" ∧
    parseNamespacedResourceURI (namespacedResourceURI "a" "/x") = some ("a", "x") := by
  decide

end SynaMcp.Proxy

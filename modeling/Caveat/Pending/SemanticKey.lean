import Caveat.Js.JsonCode
import Caveat.Lib.StableSort

/-!
# The semantic key of a reminder

Reminders are told apart by a key over who is reminded and of which entries. The references are
sorted by the locale's comparison, and neighbours that are equal are dropped. The key is the hash of
a JSON text, which is all that is modelled here.
-/

namespace Caveat.Pending

open Js
open Lib (PrefixFree listCode sortedSet NoTies)

structure Reference where
  source : Units
  id : Units
deriving DecidableEq

structure PendingSemanticKeyInput where
  agent : Units
  surface : Units
  refs : List Reference
  stopSignalDigest : Option Units := none
deriving DecidableEq

/-- `a.localeCompare(b)`: consistent, but coarser than equality. -/
structure Collator where
  compare : Units → Units → Ordering
  consistent : Std.TransCmp compare

/-- Sources first, then ids. -/
def Collator.compareRefs (collator : Collator) : Reference → Reference → Ordering :=
  compareLex (fun a b => collator.compare a.source b.source)
    (fun a b => collator.compare a.id b.id)

variable (collator : Collator) (doubles : Doubles)

/-- The references that go into the key. -/
def keyRefs (refs : List Reference) : List Reference := sortedSet collator.compareRefs refs

def refJson (ref : Reference) : Json := .array [.string ref.source, .string ref.id]

/-- The members of the object that is hashed. -/
def keyMembers (input : PendingSemanticKeyInput) : List (Units × Json) :=
  [(unitsOf "agent".toList, .string input.agent),
    (unitsOf "surface".toList, .string input.surface),
    (unitsOf "refs".toList, .array ((keyRefs collator input.refs).map refJson)),
    (unitsOf "stopSignalDigest".toList, nullable input.stopSignalDigest)]

/-- What `buildPendingSemanticKey` hashes. -/
def keyText (input : PendingSemanticKeyInput) : Text :=
  stringify doubles (.object (keyMembers collator input))

/-- The bytes that the hash is given. -/
def keyHashInput (input : PendingSemanticKeyInput) : Bytes :=
  encodeUtf8 (keyText collator doubles input)

variable {collator doubles}

/-! ## What the text tells -/

theorem stringify_ref (ref : Reference) : stringify doubles (refJson ref) =
    '[' :: (quote ref.source ++ ([','] ++ (quote ref.id ++ [']']))) := by
  rw [refJson, stringify_array, listCode, List.map_cons, List.map_singleton, stringify, stringify]
  simp

theorem prefixFree_ref : PrefixFree (fun _ => True) fun ref => stringify doubles (refJson ref) := by
  have hpair := (prefixFree_quote.append ((prefixFree_quote.before [']']).after [','])).after ['[']
  intro ref ref' _ _ r r' h
  simp only [stringify_ref] at h
  obtain ⟨heq, hr⟩ := hpair (ref.source, ref.id) (ref'.source, ref'.id) ⟨trivial, trivial⟩
    ⟨trivial, trivial⟩ r r' (by simpa using h)
  cases ref
  cases ref'
  obtain ⟨rfl, rfl⟩ := Prod.mk.inj heq
  exact ⟨rfl, hr⟩

theorem prefixFree_refs : PrefixFree (fun _ => True)
    (listCode (fun ref => stringify doubles (refJson ref)) ',' ']') := by
  have hlist := prefixFree_ref.list (show ',' ≠ ']' by decide)
    fun ref _ => ⟨'[', _, @stringify_ref doubles ref, by decide⟩
  exact fun refs refs' _ _ => hlist refs refs' (fun _ _ => trivial) fun _ _ => trivial

theorem keyText_eq (input : PendingSemanticKeyInput) : keyText collator doubles input =
    '{' :: (quote (unitsOf "agent".toList) ++ [':']) ++ (quote input.agent ++
      (([','] ++ quote (unitsOf "surface".toList) ++ [':']) ++ (quote input.surface ++
        (([','] ++ quote (unitsOf "refs".toList) ++ [':', '[']) ++
          (listCode (fun ref => stringify doubles (refJson ref)) ',' ']'
              (keyRefs collator input.refs) ++
            (([','] ++ quote (unitsOf "stopSignalDigest".toList) ++ [':']) ++
              ((input.stopSignalDigest.map quote).getD "null".toList ++ ['}']))))))) := by
  have hkeys : ((keyMembers collator input).map Prod.fst).Nodup := by
    rw [keyMembers]
    simp only [List.map_cons, List.map_nil]
    decide
  have hplain : ∀ m ∈ keyMembers collator input, unitIndex? m.1 = none := by
    intro m hm
    simp only [keyMembers, List.mem_cons, List.not_mem_nil, or_false] at hm
    rcases hm with rfl | rfl | rfl | rfl
    all_goals rfl
  have hrefs : ∀ refs : List Reference, stringify doubles (.array (refs.map refJson)) =
      '[' :: listCode (fun ref => stringify doubles (refJson ref)) ',' ']' refs := by
    intro refs
    rw [stringify_array, listCode, List.map_map]
    rfl
  have hstring : ∀ s : Units, stringify doubles (.string s) = quote s := fun s => by rw [stringify]
  rw [keyText, stringify_object, properties_eq_self hkeys hplain, keyMembers]
  simp only [List.map_cons, List.map_nil, hrefs, hstring, stringify_nullable, objectText, memberText]
  simp

/-- **The text tells everything that went into it.** -/
theorem keyText_inj {input input' : PendingSemanticKeyInput}
    (h : keyText collator doubles input = keyText collator doubles input') :
    input.agent = input'.agent ∧ input.surface = input'.surface ∧
      keyRefs collator input.refs = keyRefs collator input'.refs ∧
      input.stopSignalDigest = input'.stopSignalDigest := by
  have hstop := prefixFree_nullable.before ['}']
  have hrefs := (@prefixFree_refs doubles).append
    (hstop.after ([','] ++ quote (unitsOf "stopSignalDigest".toList) ++ [':']))
  have hsurface := prefixFree_quote.append
    (hrefs.after ([','] ++ quote (unitsOf "refs".toList) ++ [':', '[']))
  have hagent := prefixFree_quote.append
    (hsurface.after ([','] ++ quote (unitsOf "surface".toList) ++ [':']))
  rw [keyText_eq, keyText_eq] at h
  have hsame := hagent.inj (a := (input.agent, input.surface, keyRefs collator input.refs,
      input.stopSignalDigest))
    (b := (input'.agent, input'.surface, keyRefs collator input'.refs, input'.stopSignalDigest))
    ⟨trivial, trivial, trivial, trivial⟩ ⟨trivial, trivial, trivial, trivial⟩
    (List.append_cancel_left h)
  obtain ⟨h1, hsame⟩ := Prod.mk.inj hsame
  obtain ⟨h2, hsame⟩ := Prod.mk.inj hsame
  obtain ⟨h3, h4⟩ := Prod.mk.inj hsame
  exact ⟨h1, h2, h3, h4⟩

/-! ## The law -/

theorem Collator.trans_compareRefs (collator : Collator) : Std.TransCmp collator.compareRefs := by
  have := collator.consistent
  have hsource := Lib.transCmp_on collator.compare Reference.source
  have hid := Lib.transCmp_on collator.compare Reference.id
  exact inferInstanceAs (Std.TransCmp (compareLex _ _))

variable (collator doubles)

/-- The same references, in any order and as often as one likes, are hashed as the same bytes. -/
def SetDetermines (input : PendingSemanticKeyInput) : Prop :=
  ∀ refs, (∀ ref, ref ∈ refs ↔ ref ∈ input.refs) →
    keyHashInput collator doubles { input with refs := refs } = keyHashInput collator doubles input

/-- Whatever differs in the set, the agent, the surface or the digest is hashed as other bytes. -/
def Separates (input : PendingSemanticKeyInput) : Prop :=
  ∀ input' : PendingSemanticKeyInput,
    (¬ ∀ ref, ref ∈ input'.refs ↔ ref ∈ input.refs) ∨ input'.agent ≠ input.agent ∨
        input'.surface ≠ input.surface ∨ input'.stopSignalDigest ≠ input.stopSignalDigest →
      keyHashInput collator doubles input' ≠ keyHashInput collator doubles input

variable {collator doubles}

theorem separates (input : PendingSemanticKeyInput) : Separates collator doubles input := by
  intro input' hdiffer hsame
  obtain ⟨hagent, hsurface, hrefs, hstop⟩ := keyText_inj (encodeUtf8_inj hsame)
  rcases hdiffer with hset | hne | hne | hne
  · refine hset fun ref => ?_
    rw [← @Lib.mem_sortedSet _ collator.compareRefs, ← keyRefs, hrefs, keyRefs,
      Lib.mem_sortedSet]
  · exact hne hagent
  · exact hne hsurface
  · exact hne hstop

theorem setDetermines_of_noTies {input : PendingSemanticKeyInput}
    (h : NoTies collator.compareRefs input.refs) : SetDetermines collator doubles input := by
  have := collator.trans_compareRefs
  intro refs hrefs
  rw [keyHashInput, keyHashInput, keyText_eq, keyText_eq]
  have hkey : keyRefs collator refs = keyRefs collator input.refs := Lib.sortedSet_congr h hrefs
  rw [hkey]

/-- A tie is broken by the order in which the references come. -/
theorem not_setDetermines_of_tie {input : PendingSemanticKeyInput} {a b : Reference}
    (ha : a ∈ input.refs) (hb : b ∈ input.refs) (htie : collator.compareRefs a b = .eq)
    (hne : a ≠ b) : ¬ SetDetermines collator doubles input := by
  have := collator.trans_compareRefs
  intro h
  have hsame : ∀ c d : Reference, c ∈ input.refs → d ∈ input.refs →
      keyHashInput collator doubles { input with refs := c :: d :: input.refs } =
        keyHashInput collator doubles input := by
    intro c d hc hd
    refine h _ fun ref => ⟨fun hmem => ?_, fun hmem => by simp [hmem]⟩
    rcases List.mem_cons.mp hmem with rfl | hmem
    · exact hc
    · rcases List.mem_cons.mp hmem with rfl | hmem
      · exact hd
      · exact hmem
  have horders := (hsame a b ha hb).trans (hsame b a hb ha).symm
  obtain ⟨_, _, hrefs, _⟩ := keyText_inj (encodeUtf8_inj horders)
  exact Lib.sortedSet_ne_of_tie htie hne input.refs hrefs

/--
**When the key is one of the set.** References that differ have other hash inputs always; the same
references have the same exactly if no two of them that differ compare as equal.
-/
theorem semantic_key_iff (collator : Collator) (doubles : Doubles)
    (input : PendingSemanticKeyInput) :
    (SetDetermines collator doubles input ∧ Separates collator doubles input) ↔
      NoTies collator.compareRefs input.refs := by
  refine ⟨fun h a ha b hb htie => ?_, fun h => ⟨setDetermines_of_noTies h, separates input⟩⟩
  by_contra hne
  exact not_setDetermines_of_tie ha hb htie hne h.1

/-! ## Two spellings of a letter -/

/-- `é` as the letter and its accent, which the locale does not tell from the one character. -/
def decomposed (s : Units) : Units := s.flatMap fun u => if u = 0xe9 then [0x65, 0x301] else [u]

/-- Strings are compared as they are decomposed. -/
def canonicalCollator : Collator where
  compare s t := Ord.compare (decomposed s) (decomposed t)
  consistent := Lib.transCmp_on Ord.compare decomposed

/-- An entry whose id is spelled in the two ways. -/
def twoSpellings : PendingSemanticKeyInput where
  agent := unitsOf "codex".toList
  surface := unitsOf "stop".toList
  refs := [⟨unitsOf "own".toList, [0xe9]⟩, ⟨unitsOf "own".toList, [0x65, 0x301]⟩]

/-- The two ids tie, so the order in which they come decides what is hashed. -/
theorem spellings_order_matters :
    ¬ (SetDetermines canonicalCollator plainDoubles twoSpellings ∧
      Separates canonicalCollator plainDoubles twoSpellings) := by
  intro h
  exact not_setDetermines_of_tie (a := ⟨unitsOf "own".toList, [0xe9]⟩)
    (b := ⟨unitsOf "own".toList, [0x65, 0x301]⟩) (by simp [twoSpellings]) (by simp [twoSpellings])
    (by decide) (by decide) h.1

end Caveat.Pending

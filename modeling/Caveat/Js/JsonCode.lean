import Caveat.Js.Stringify
import Caveat.Lib.PrefixCode

/-!
# JSON texts tell where they end

A written string ends at its closing quotation mark, and a written array at its closing bracket, so
texts that begin with them are equal only if the values are.
-/

namespace Caveat.Js

open Lib (PrefixFree listCode)

theorem prefixFree_quote : PrefixFree (fun _ => True) quote := by
  intro s s' _ _ r r' h
  rw [quote_append, quote_append] at h
  have hread := congrArg parseChars (List.cons.inj h).2
  rw [parseChars_quote_append, parseChars_quote_append] at hread
  obtain ⟨rfl, rfl⟩ := Prod.mk.inj (Option.some.inj hread)
  exact ⟨rfl, rfl⟩

theorem quote_eq_cons (s : Units) :
    quote s = '"' :: ((codePoints s).flatMap CodePoint.quote ++ ['"']) := by
  rw [quote, List.cons_append]

theorem stringify_array (doubles : Doubles) (items : List Json) :
    stringify doubles (.array items) = '[' :: listCode (stringify doubles) ',' ']' items := by
  have hitems : stringifyItems doubles items = items.map (stringify doubles) := by
    induction items with
    | nil => rw [stringifyItems, List.map_nil]
    | cons v items ih => rw [stringifyItems, ih, List.map_cons]
  rw [stringify, hitems, listCode, List.cons_append]

/-- A string, or `null`. -/
def nullable (s : Option Units) : Json := (s.map Json.string).getD .null

theorem stringify_nullable (doubles : Doubles) (s : Option Units) :
    stringify doubles (nullable s) = (s.map quote).getD "null".toList := by
  cases s with
  | none => rw [nullable, Option.map_none, Option.getD_none, stringify, Option.map_none,
      Option.getD_none]
  | some s => rw [nullable, Option.map_some, Option.getD_some, stringify, Option.map_some,
      Option.getD_some]

theorem prefixFree_nullable : PrefixFree (fun _ => True)
    (fun s : Option Units => (s.map quote).getD "null".toList) := by
  have hquote : ∀ s : Units, True → ∃ d u, quote s = d :: u ∧ d ≠ 'n' := fun s _ =>
    ⟨'"', _, quote_eq_cons s, by decide⟩
  have hoption := prefixFree_quote.option "ull".toList hquote
  exact fun s s' _ _ => hoption s s' (fun _ _ => trivial) fun _ _ => trivial

end Caveat.Js

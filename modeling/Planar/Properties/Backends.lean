import Planar.Catalog.Calls
import Planar.Properties.TimeTravel

/-
  The two backends answer alike, unless a call decodes a
  found `SELECT 1` or a time stamp.

  Main declarations:
    * `CatalogCall.Decodes`
    * `runCalls`
    * `runCalls_sameOnBoth`
-/

------------------------------------------------------------
-- Calls That Decode
------------------------------------------------------------

namespace Planar

variable
  {ext : External}
  {db : Database}
  {ident : TableIdent}
  {tableUuid : Uuid}

/-
  Both backends get the same result, and if it is a success
  its value satisfies `Post`.
-/
def Alike
    {α : Type}
    (db : Database)
    (query : DbKind → CatalogQuery α)
    (Post : α → Prop) : Prop :=
  ∃ result,
    (∀ kind, (query kind).exec db = result) ∧
    ∀ a, result = .ok a → Post a

namespace Alike

variable
  {α β : Type}
  {Post : α → Prop}
  {Then : β → Prop}

/- A program that does not depend on the backend. -/
theorem same
    (query : CatalogQuery α) :
    Alike db (fun _ => query)
      fun a => query.exec db = .ok a :=
  ⟨query.exec db, fun _ => rfl, fun _ hOk => hOk⟩

theorem pure
    {a : α}
    (hPost : Post a) :
    Alike db (fun _ => Pure.pure a) Post := by
  refine ⟨.ok a, fun _ => rfl, ?_⟩
  intro b hOk
  rw [← Except.ok.inj hOk]
  exact hPost

theorem fail
    (e : Fault) :
    Alike db (fun _ => Query.fail e) Post :=
  ⟨.error e, fun _ => rfl, fun _ hOk => nomatch hOk⟩

/- Sequences of parts that are alike are alike. -/
theorem bind
    {p : DbKind → CatalogQuery α}
    {f : DbKind → α → CatalogQuery β}
    (hFirst : Alike db p Post)
    (hRest : ∀ a, Post a →
      Alike db (fun kind => f kind a) Then) :
    Alike db (fun kind => p kind >>= f kind) Then := by
  rcases hFirst with ⟨result, hSame, hPost⟩
  cases result with
  | error e =>
      exact ⟨.error e,
        fun kind => Query.exec_bind_of_error (hSame kind),
        fun _ hOk => nomatch hOk⟩
  | ok a =>
      rcases hRest a (hPost a rfl) with
        ⟨result, hSame', hThen⟩
      refine ⟨result, fun kind => ?_, hThen⟩
      rw [Query.exec_bind_of_ok (hSame kind)]
      exact hSame' kind

theorem mono
    {Post' : α → Prop}
    {p : DbKind → CatalogQuery α}
    (hAlike : Alike db p Post)
    (hMono : ∀ a, Post a → Post' a) :
    Alike db p Post' := by
  rcases hAlike with ⟨result, hSame, hPost⟩
  exact ⟨result, hSame,
    fun a hOk => hMono a (hPost a hOk)⟩

end Alike

------------------------------------------------------------
-- Reads on Both Backends
------------------------------------------------------------

end Planar

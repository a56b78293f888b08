import MutationInput.Proofs.Insertions
import MutationInput.Proofs.Provided.Entries

/-!
# Requests one after the other

Arguments can be requested in several steps. What counts is the list of all requested names, each
at its first place, and not how it is divided: `requests_accumulate`.
-/
namespace MutationInput

namespace Inspection

/-- Two requests are one of the names of both. -/
theorem request_append (r : Inspection) (names others : List String) :
    (r.request names).request others = r.request (names ++ others) := by
  simp only [request, List.foldl_append]

/-- Any number of requests are one. -/
theorem foldl_request (r : Inspection) (requests : List (List String)) :
    requests.foldl request r = r.request requests.flatten := by
  induction requests generalizing r with
  | nil => rfl
  | cons names requests ih => rw [List.foldl_cons, List.flatten_cons, ih, request_append]

/-- The names of a request stand in the order in which they come first. -/
theorem inFirstOrder_requested (names : List String) :
    InFirstOrder (all.request names).requested names := by
  rw [requested_all_request]
  exact inFirstOrder_eraseDups names

/-- Names that are requested more than once may as well be requested once. -/
theorem request_inFirstOrder {distinct names : List String} (h : InFirstOrder distinct names) :
    all.request distinct = all.request names := by
  have hrequested : (all.request distinct).requested = (all.request names).requested := by
    rw [requested_all_request, requested_all_request, Dict.eraseDups_of_nodup h.nodup,
      h.eq_eraseDups]
  exact congrArg (Inspection.mk · false) hrequested

/-- The inspection that is built by requests, one after the other, and requires bindings or not. -/
def ofRequests (requests : List (List String)) (require : Bool) : Inspection :=
  (requests.foldl request all).requiring require

theorem ofRequests_eq (requests : List (List String)) (require : Bool) :
    ofRequests requests require = (all.request requests.flatten).requiring require := by
  rw [ofRequests, foldl_request]

theorem requested_ofRequests (requests : List (List String)) (require : Bool) :
    (ofRequests requests require).requested = (all.request requests.flatten).requested := by
  rw [ofRequests_eq]
  rfl

end Inspection

open Inspection

/-- An inspection that is built by requests one after the other has stored each name once, in the
order of the first requests, and no name only if all requests were empty. It resolves as if all
names, or each of them once, had been requested together, and whether bindings are required may be
said before or after. -/
theorem requests_accumulate (requests : List (List String)) (require : Bool) :
    (InFirstOrder (ofRequests requests require).requested requests.flatten ∧
      ((ofRequests requests require).requested = [] ↔ ∀ names ∈ requests, names = [])) ∧
    (∀ ctx,
      (ofRequests requests require).resolve ctx =
          ((all.request requests.flatten).requiring require).resolve ctx ∧
        (ofRequests requests require).resolve ctx =
          (requests.foldl request (all.requiring require)).resolve ctx ∧
        ∀ distinct, InFirstOrder distinct requests.flatten →
          (ofRequests requests require).resolve ctx =
            ((all.request distinct).requiring require).resolve ctx) ∧
    ∀ ctx names, providedFields ctx names = ((all.request names).requiring false).resolve ctx := by
  refine ⟨⟨?_, ?_⟩, fun ctx => ⟨?_, ?_, ?_⟩, fun _ _ => rfl⟩
  · rw [requested_ofRequests]
    exact inFirstOrder_requested requests.flatten
  · rw [requested_ofRequests, requested_all_request, Dict.eraseDups_eq_nil_iff,
      List.flatten_eq_nil_iff]
  · rw [ofRequests_eq]
  · rw [ofRequests_eq, foldl_request]
    rfl
  · intro distinct hdistinct
    rw [ofRequests_eq, request_inFirstOrder hdistinct]

/-- Requests that repeat names are resolved as one of each name. -/
theorem requests_accumulate_savesTwice :
    InFirstOrder ["extra", "input"] ["extra", "input", "extra"] ∧
      (Inspection.ofRequests [["extra"], [], ["input", "extra"]] false).resolve
          ⟨some Operation.savesTwice, some "save", Variables.patch⟩ =
        ((Inspection.all.request ["extra", "input"]).requiring false).resolve
          ⟨some Operation.savesTwice, some "save", Variables.patch⟩ := by
  have hdistinct : InFirstOrder ["extra", "input"] ["extra", "input", "extra"] :=
    inFirstOrder_eraseDups ["extra", "input", "extra"]
  obtain ⟨-, hresolve, -⟩ := requests_accumulate [["extra"], [], ["input", "extra"]] false
  exact ⟨hdistinct, (hresolve _).2.2 _ hdistinct⟩

end MutationInput

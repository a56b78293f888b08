import MutationInput.Proofs.Client.Data
import MutationInput.Proofs.CommandLine.Headers
import MutationInput.Proofs.CommandLine.Inputs

/-!
# The command that executes a query

Before anything is sent, the command goes through its headers from left to right, reads the query
and reads the variables. `ExecuteOptions.Fails` says of an error that it is that of the first of
these steps to fail, and `ExecuteOptions.Ready` what they give if none fails. In the first case
nothing is sent; in the second the command does what the client does with the query, and prints
the data or reports why there is none, `execute_refines`.
-/
namespace MutationInput.CommandLine

namespace ExecuteOptions

variable (o : ExecuteOptions) (files : FileSystem)

/-- A step fails after the steps before it have succeeded. -/
inductive Fails : CommandError → Prop where
  | header {before after : List String} {header : String} {e : CommandError}
      (order : o.headers = before ++ header :: after)
      (earlier : ∀ h ∈ before, ∀ e', ¬HeaderFails h e') (fails : HeaderFails header e) : Fails e
  | query {e : ReadError} (headers : ∀ h ∈ o.headers, ∀ e', ¬HeaderFails h e')
      (fails : files.readText o.query = .error e) : Fails (.read e)
  | bindings {query : String} {e : ReadError} (headers : ∀ h ∈ o.headers, ∀ e', ¬HeaderFails h e')
      (reads : files.readText o.query = .ok query) (fails : files.FailsToGive o.variablesFile e) :
      Fails (.read e)

variable {o files}

theorem prepare_eq_error_iff {e : CommandError} :
    o.prepare files = .error e ↔ o.Fails files e := by
  simp only [prepare, bind_eq_error_iff, mapError_eq_error_iff, mapError_eq_ok_iff,
    readVariables?_eq_error_iff, client_eq_error_iff, pure, Except.pure, reduceCtorEq, and_false,
    exists_false, or_false]
  constructor
  · rintro (⟨before, header, after, order, earlier, fails⟩ |
      ⟨c, hc, ⟨e, fails, rfl⟩ | ⟨query, reads, e, fails, rfl⟩⟩)
    · exact .header order earlier fails
    · exact .query (exists_client_iff.mp ⟨c, hc⟩) fails
    · exact .bindings (exists_client_iff.mp ⟨c, hc⟩) reads fails
  · intro h
    cases h with
    | header order earlier fails => exact .inl ⟨_, _, _, order, earlier, fails⟩
    | query headers fails =>
        obtain ⟨c, hc⟩ := exists_client_iff.mpr headers
        exact .inr ⟨c, hc, .inl ⟨_, fails, rfl⟩⟩
    | bindings headers reads fails =>
        obtain ⟨c, hc⟩ := exists_client_iff.mpr headers
        exact .inr ⟨c, hc, .inr ⟨_, reads, _, fails, rfl⟩⟩

variable (o)

/-- Requests can be made: the endpoint is an address, and the content type can be a header. -/
structure CanSend (lib : Library) : Prop where
  addressed : ∃ endpoint, Http.Endpoint.Addresses lib o.endpoint endpoint
  no_control : ¬Http.HasControl o.contentType

/-- The outcome by what the client's execution comes to. Data goes to the output as lines from which
it is parsed back, if its numbers are integers of 64 bits; errors go to the error output. -/
inductive Ends (lib : Library) : Except ExecuteError Json → Outcome → Prop where
  | data {j : Json} {text : String} (printed : text = j.pretty ++ "\n")
      (parses : j.HasWholeNumbers → Json.parse (Text.ofString text) = .ok j) :
      Ends lib (.ok j) ⟨0, text, ""⟩
  | listed (errors : List ResponseError) :
      Ends lib (.error (.listed errors))
        ⟨1, "", "❌ " ++ (CommandError.listed errors).message lib ++ "\n"⟩
  | exchange (e : TransportError) :
      Ends lib (.error (.transport e))
        ⟨1, "", "❌ " ++ (CommandError.exchange o.endpoint e).message lib ++ "\n"⟩

variable (files)

variable {o files} {lib : Library}

variable (network : Request → Reply)

/-- Where a step fails, nothing is asked and the failure is reported. -/
theorem Fails.stops {e : CommandError} (h : o.Fails files e) :
    (o.data lib files).asked network = [] ∧
      Outcome.ofResult lib ((o.data lib files).result network).result =
        ⟨1, "", "❌ " ++ e.message lib ++ "\n"⟩ := by
  rw [data, prepare_eq_error_iff.mpr h]
  exact ⟨rfl, rfl⟩

variable (o files)

end ExecuteOptions

namespace ExecuteOptions

end ExecuteOptions

open ExecuteOptions

end MutationInput.CommandLine

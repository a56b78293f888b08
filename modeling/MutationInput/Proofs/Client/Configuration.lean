import MutationInput.Proofs.Client.Request

/-!
# Configuring a client

A client is configured by calls, each of which sets its content type or a further header. What a
call does to the state of the client is said once, `Configured.after`, and from that what any
sequence of calls leads to, `configured_of_calls`: the last accepted call for a header decides, and
a rejected call leaves everything as it was. The request that is sent has one content type, which
is that of the further headers if they have one: `sentValues_contentType`.
-/
namespace MutationInput

namespace Client

/-- A call that configures a client. -/
inductive Call where
  | contentType (contentType : String)
  | header (name value : String)
  deriving DecidableEq, Repr

/-- What a call makes of the client. -/
def call (c : Client) : Call → Except TransportError Client
  | .contentType contentType => .ok (c.withContentType contentType)
  | .header name value => c.withHeader name value

/-- The client that is in force after a call. If the call is rejected, it is the one before. -/
def after (c : Client) (x : Call) : Client :=
  match c.call x with
  | .ok c' => c'
  | .error _ => c

/-- The client of an endpoint after calls. -/
def configured (endpoint : String) (calls : List Call) : Client :=
  calls.foldl after (ofEndpoint endpoint)

/-! ## Accepted and rejected headers -/

/-- The name and the value of a header are accepted. -/
structure Accepts (name value : String) : Prop where
  token : Http.IsToken name
  length_le : name.length ≤ Http.maxHeaderName
  no_control : ¬Http.HasControl value

/-- Why a header is rejected. The value is only looked at if the name is accepted. -/
inductive Rejects (name value : String) : TransportError → Prop where
  | name (invalid : ¬(Http.IsToken name ∧ name.length ≤ Http.maxHeaderName)) :
      Rejects name value (.invalidHeaderName name)
  | value (token : Http.IsToken name) (length_le : name.length ≤ Http.maxHeaderName)
      (control : Http.HasControl value) : Rejects name value (.invalidHeaderValue name)

theorem rejects_of_withHeader {c : Client} {name value : String} {e : TransportError} :
    c.withHeader name value = .error e ↔ Rejects name value e := by
  rw [withHeader_eq_error_iff, Http.isHeaderName_iff, Http.not_isHeaderValue_iff]
  constructor
  · rintro (⟨invalid, rfl⟩ | ⟨⟨token, length_le⟩, control, rfl⟩)
    · exact .name invalid
    · exact .value token length_le control
  · rintro (invalid | ⟨token, length_le, control⟩)
    · exact .inl ⟨invalid, rfl⟩
    · exact .inr ⟨⟨token, length_le⟩, control, rfl⟩

theorem withHeader_of_accepts {name value : String} (h : Accepts name value) (c : Client) :
    c.withHeader name value =
      .ok { c with headers := c.headers.insert (Text.lowerAscii name) value } := by
  have hname : Http.headerName? name = some (Text.lowerAscii name) :=
    Http.headerName?_eq_some_iff.mpr ⟨Http.isHeaderName_iff.mpr ⟨h.token, h.length_le⟩, rfl⟩
  have hvalue : Http.isHeaderValue value = true := by
    rw [Http.isHeaderValue_iff, ← not_not (a := Http.IsHeaderValue value),
      Http.not_isHeaderValue_iff]
    exact h.no_control
  simp only [withHeader, hname, hvalue, if_true]

/-- A header that is not accepted is rejected. -/
theorem exists_rejects {name value : String} (h : ¬Accepts name value) :
    ∃ e, Rejects name value e := by
  by_cases hname : Http.IsToken name ∧ name.length ≤ Http.maxHeaderName
  · refine ⟨_, .value hname.1 hname.2 ?_⟩
    by_contra hcontrol
    exact h ⟨hname.1, hname.2, hcontrol⟩
  · exact ⟨_, .name hname⟩

/-! ## The state after calls -/

namespace Call

/-- The content type that a call sets. -/
def contentType? : Call → Option String
  | .contentType t => some t
  | .header .. => none

/-- The call is accepted and sets the header whose name in lower case is `key`. -/
def Sets (x : Call) (key value : String) : Prop :=
  ∃ name, x = .header name value ∧ Accepts name value ∧ Text.lowerAscii name = key

/-- The last of the calls that set a header sets it to this value. -/
def LastSets (calls : List Call) (key value : String) : Prop :=
  ∃ before x after, calls = before ++ x :: after ∧ x.Sets key value ∧
    ∀ y ∈ after, ∀ v, ¬y.Sets key v

/-- One more call sets the header, or leaves it to the calls before. -/
theorem lastSets_concat_iff {calls : List Call} {x : Call} {key value : String} :
    LastSets (calls ++ [x]) key value ↔
      x.Sets key value ∨ (∀ v, ¬x.Sets key v) ∧ LastSets calls key value := by
  constructor
  · rintro ⟨before, y, after, heq, hy, hafter⟩
    rcases List.eq_nil_or_concat after with rfl | ⟨after, z, rfl⟩
    · obtain ⟨-, hx⟩ := List.append_inj' heq rfl
      cases hx
      exact .inl hy
    · rw [List.concat_eq_append, ← List.cons_append, ← List.append_assoc] at heq
      obtain ⟨hcalls, hx⟩ := List.append_inj' heq rfl
      cases hx
      refine .inr ⟨hafter x (by simp), before, y, after, hcalls, hy, fun w hw => ?_⟩
      exact hafter w (by simp [hw])
  · rintro (hx | ⟨hnone, before, y, after, rfl, hy, hafter⟩)
    · exact ⟨calls, x, [], rfl, hx, by simp⟩
    · refine ⟨before, y, after ++ [x], by simp, hy, fun w hw => ?_⟩
      rcases List.mem_append.mp hw with hw | hw
      · exact hafter w hw
      · rw [List.mem_singleton.mp hw]
        exact hnone

/-- The header that is set has its name in lower case. -/
theorem LastSets.lowerAscii_eq {calls : List Call} {key value : String}
    (h : LastSets calls key value) : Text.lowerAscii key = key := by
  obtain ⟨-, -, -, -, ⟨name, -, -, rfl⟩, -⟩ := h
  exact Text.lowerAscii_lowerAscii name

end Call

open Call (LastSets)

/-- What calls made of the client of an endpoint. -/
structure Configured (endpoint : String) (calls : List Call) (c : Client) : Prop where
  /-- The endpoint is the one it was made for. -/
  endpoint_eq : c.endpoint = endpoint
  /-- The content type is the one set last, or the default. -/
  contentType_eq :
    c.contentType = (calls.filterMap Call.contentType?).getLast?.getD defaultContentType
  /-- Each header has the value of the last accepted call for it. -/
  mem_headers_iff : ∀ key value, (key, value) ∈ c.headers.entries ↔ LastSets calls key value
  /-- No two headers have one name in two spellings. -/
  apart : c.headers.entries.Pairwise fun h h' => Text.lowerAscii h.1 ≠ Text.lowerAscii h'.1

/-- Names in lower case that do not repeat differ in more than letter case. -/
theorem apart_of_lowerAscii {headers : Dict String}
    (h : ∀ e ∈ headers.entries, Text.lowerAscii e.1 = e.1) :
    headers.entries.Pairwise fun e e' => Text.lowerAscii e.1 ≠ Text.lowerAscii e'.1 := by
  refine (List.pairwise_map.mp headers.nodup).imp_of_mem fun he he' hne => ?_
  rw [h _ he, h _ he']
  exact hne

theorem configured_nil (endpoint : String) : Configured endpoint [] (ofEndpoint endpoint) where
  endpoint_eq := rfl
  contentType_eq := rfl
  mem_headers_iff key value := by
    simp [ofEndpoint, Dict.empty, LastSets]
  apart := List.Pairwise.nil

/-- A call that sets no header adds nothing to those that were set. -/
theorem lastSets_concat_of_not_sets {calls : List Call} {x : Call} (h : ∀ key v, ¬x.Sets key v)
    (key value : String) : LastSets (calls ++ [x]) key value ↔ LastSets calls key value := by
  rw [Call.lastSets_concat_iff]
  exact ⟨fun hset => (hset.resolve_left (h key value)).2, fun hset => .inr ⟨h key, hset⟩⟩

namespace Configured

variable {endpoint : String} {calls : List Call} {c : Client}

theorem withContentType (h : Configured endpoint calls c) (contentType : String) :
    Configured endpoint (calls ++ [.contentType contentType])
      (c.withContentType contentType) where
  endpoint_eq := h.endpoint_eq
  contentType_eq := by simp [Client.withContentType, Call.contentType?]
  mem_headers_iff key value := by
    rw [lastSets_concat_of_not_sets fun _ _ ⟨_, hx, _⟩ => Call.noConfusion hx]
    exact h.mem_headers_iff key value
  apart := h.apart

theorem withHeader (h : Configured endpoint calls c) {name value : String}
    (haccepts : Accepts name value) :
    Configured endpoint (calls ++ [.header name value])
      { c with headers := c.headers.insert (Text.lowerAscii name) value } := by
  have hmem : ∀ key v, (key, v) ∈ (c.headers.insert (Text.lowerAscii name) value).entries ↔
      LastSets (calls ++ [.header name value]) key v := by
    intro key v
    rw [← Dict.get?_eq_some_iff, Dict.get?_insert, Call.lastSets_concat_iff]
    by_cases hkey : key = Text.lowerAscii name
    · rw [if_pos hkey]
      constructor
      · intro hv
        cases hv
        exact .inl ⟨name, rfl, haccepts, hkey.symm⟩
      · rintro (⟨_, hx, -, -⟩ | ⟨hnone, -⟩)
        · cases hx
          rfl
        · exact absurd ⟨name, rfl, haccepts, hkey.symm⟩ (hnone value)
    · have hnone : ∀ w, ¬(Call.header name value).Sets key w := by
        rintro w ⟨_, hx, -, hname⟩
        cases hx
        exact hkey hname.symm
      rw [if_neg hkey, Dict.get?_eq_some_iff, h.mem_headers_iff]
      exact ⟨fun hset => .inr ⟨hnone, hset⟩, fun hset => (hset.resolve_left (hnone v)).2⟩
  constructor
  · exact h.endpoint_eq
  · simpa [Call.contentType?] using h.contentType_eq
  · exact hmem
  · exact apart_of_lowerAscii fun e he => ((hmem e.1 e.2).mp he).lowerAscii_eq

theorem of_rejected (h : Configured endpoint calls c) {name value : String}
    (hrejects : ¬Accepts name value) :
    Configured endpoint (calls ++ [.header name value]) c where
  endpoint_eq := h.endpoint_eq
  contentType_eq := by simpa [Call.contentType?] using h.contentType_eq
  mem_headers_iff key v := by
    rw [lastSets_concat_of_not_sets]
    · exact h.mem_headers_iff key v
    · rintro _ _ ⟨_, hx, haccepts, -⟩
      cases hx
      exact hrejects haccepts
  apart := h.apart

/-- What one more call does to the client. -/
theorem after (h : Configured endpoint calls c) (x : Call) :
    Configured endpoint (calls ++ [x]) (c.after x) := by
  cases x with
  | contentType contentType => exact h.withContentType contentType
  | header name value =>
      by_cases haccepts : Accepts name value
      · simp only [Client.after, call, withHeader_of_accepts haccepts]
        exact h.withHeader haccepts
      · obtain ⟨e, he⟩ := exists_rejects haccepts
        simp only [Client.after, call, rejects_of_withHeader.mpr he]
        exact h.of_rejected haccepts

end Configured

/-- What any sequence of calls makes of the client of an endpoint. -/
theorem configured_of_calls (endpoint : String) (calls : List Call) :
    Configured endpoint calls (configured endpoint calls) := by
  induction calls using List.reverseRecOn with
  | nil => exact configured_nil endpoint
  | append_singleton calls x ih =>
      rw [configured, List.foldl_concat]
      exact ih.after x

/-- Two spellings of a name are one header, and the rejected call in between sets nothing. -/
example : (configured "http://localhost/graphql"
    [.header "X-Trace" "1", .header "x trace" "2", .header "x-TRACE" "3"]).headers.entries =
      [("x-trace", "3")] := by
  decide +kernel

/-- A rejected call leaves the client before it in force. -/
theorem configured_concat_of_error {endpoint : String} {calls : List Call} {x : Call}
    {e : TransportError} (h : (configured endpoint calls).call x = .error e) :
    configured endpoint (calls ++ [x]) = configured endpoint calls := by
  rw [configured, List.foldl_concat]
  change (configured endpoint calls).after x = configured endpoint calls
  rw [after, h]

end Client

end MutationInput

import MutationInput.Proofs.Json.Recovery
import MutationInput.Proofs.Response

/-!
# Bodies that are written and decoded again

A body comes back from the JSON value that it is written as, `bodies_come_back`: an absent member
stays apart from an empty one, and an index from a field that is named by digits. Only null data
does not come back, which stands for absent data. A body that was decoded has none.
-/
namespace MutationInput

open Json (Decoder)

namespace Json.Record

variable {α : Type}

/-- A member that is left out if it is absent is recovered, if absence is what the record has
before. -/
theorem recovers_optionalMember {β : Type} {r : Record α} {required : Bool} {d : Decoder β}
    {store : Option β → α → α} {encode : β → Json} {o : Option β} (key : String) (x : α)
    (find : r.find? key = some (.storing key required d.optional store))
    (absent : store none x = x) (h : ∀ v ∈ o, d.Recovers (encode v) v)
    (not_null : ∀ v ∈ o, encode v ≠ .null) :
    r.Recovers (optionalMember key encode o) x (store o x) := by
  cases o with
  | none =>
      rw [absent]
      exact ⟨rfl, rfl⟩
  | some v => exact recovers_member key x find ((h v rfl).optional (not_null v rfl))

/-- The name of a member that may be left out. -/
theorem keys_optionalMember_sublist (key : String) (encode : α → Json) (o : Option α) :
    ((optionalMember key encode o).map Prod.fst).Sublist [key] := by
  cases o with
  | none => exact List.nil_sublist _
  | some v => exact List.Sublist.refl _

end Json.Record

/-! ## Values of which a body consists -/

/-- The further members of an error are sorted at every depth. -/
def ResponseError.IsCanonical (e : ResponseError) : Prop :=
  ∀ members ∈ e.extensions, (Json.object members).IsCanonical

/-- The data of a body and the further members of its errors are sorted at every depth. -/
structure ResponseBody.IsCanonical (b : ResponseBody) : Prop where
  data : ∀ j ∈ b.data, j.IsCanonical
  errors : ∀ es ∈ b.errors, ∀ e ∈ es, e.IsCanonical

/-! ## Recovery -/

open Json.Record (recovers_member recovers_optionalMember keys_optionalMember_sublist)

theorem Json.recovers_ofNat (n : Nat) : Decoder.unsigned.Recovers (.ofNat n) n :=
  Decoder.recovers_of_isCanonical trivial rfl

theorem ErrorLocation.recovers_toJson (l : ErrorLocation) :
    record.decoder.Recovers l.toJson l := by
  have hline := recovers_member (r := record) "line" record.blank rfl (Json.recovers_ofNat l.line)
  have hcolumn := recovers_member (r := record) "column" ⟨l.line, 0⟩ rfl
    (Json.recovers_ofNat l.column)
  refine regular_record.recovers ?_ (hline.append hcolumn) rfl
  exact (show ["line", "column"].Nodup by decide)

theorem PathSegment.recovers_toJson (segment : PathSegment) :
    PathSegment.decoder.Recovers segment.toJson segment := by
  cases segment <;> exact Decoder.recovers_of_isCanonical trivial rfl

theorem ResponseError.recovers_toJson {e : ResponseError} (he : e.IsCanonical) :
    ResponseError.decoder.Recovers e.toJson e := by
  refine regular_record.recovers ?_ ?_ rfl
  · -- The names are among those of the record, in the same order.
    refine List.Nodup.sublist ?_
      (show ["message", "locations", "path", "extensions"].Nodup by decide)
    simp only [List.map_append, List.map_cons]
    exact (((keys_optionalMember_sublist ..).cons_cons _).append
      (keys_optionalMember_sublist ..)).append (keys_optionalMember_sublist ..)
  · have hmessage := recovers_member (r := record) "message" record.blank rfl
      (Decoder.recovers_of_isCanonical (d := .string) (j := .string e.message) trivial rfl)
    have hlocations := recovers_optionalMember (r := record) (o := e.locations) "locations"
      ⟨e.message, none, none, none⟩ rfl rfl
      (fun ls _ => Decoder.recovers_list fun l _ => l.recovers_toJson) (by simp)
    have hpath := recovers_optionalMember (r := record) (o := e.path) "path"
      ⟨e.message, e.locations, none, none⟩ rfl rfl
      (fun p _ => Decoder.recovers_list fun segment _ => segment.recovers_toJson) (by simp)
    have hextensions := recovers_optionalMember (r := record) (o := e.extensions) "extensions"
      ⟨e.message, e.locations, e.path, none⟩ rfl rfl
      (fun ms hms => Decoder.recovers_sortedEntries (he ms hms)) (by simp)
    exact ((hmessage.append hlocations).append hpath).append hextensions

theorem ResponseBody.recovers_toJson {b : ResponseBody} (hb : b.IsCanonical)
    (hdata : b.data ≠ some .null) : decoder.Recovers b.toJson b := by
  refine regular_record.recovers ?_ ?_ rfl
  · refine List.Nodup.sublist ?_ (show ["data", "errors"].Nodup by decide)
    rw [List.map_append]
    exact (keys_optionalMember_sublist ..).append (keys_optionalMember_sublist ..)
  · have hvalue := recovers_optionalMember (r := record) (o := b.data) "data" record.blank
      rfl rfl (fun j hj => Decoder.recovers_of_isCanonical (d := .value) (hb.data j hj) rfl)
      (fun j hj hnull => hdata (hj.trans (congrArg some hnull)))
    have herrors := recovers_optionalMember (r := record) (o := b.errors) "errors"
      ⟨b.data, none⟩ rfl rfl
      (fun es hes => Decoder.recovers_list fun e he =>
        ResponseError.recovers_toJson (hb.errors es hes e he))
      (by simp)
    exact hvalue.append herrors

/-! ## What a decoded body is like -/

theorem ResponseError.yields_decoder : ResponseError.decoder.Yields ResponseError.IsCanonical := by
  refine Json.Record.Yields.decoder ?_ (by simp [record, ResponseError.IsCanonical])
  simp only [Json.Record.Yields, record, List.forall_mem_cons]
  refine ⟨?_, ?_, ?_, ?_, by simp⟩
  · exact .map fun _ _ _ _ _ h => h
  · exact .map fun _ _ _ _ _ h => h
  · exact .map fun _ _ _ _ _ h => h
  · refine .map fun j o hj ho x _ => ?_
    exact Decoder.yields_sortedEntries.optional j o hj ho

/-- A body that is decoded has no null data, and all values in it are sorted. -/
theorem ResponseBody.yields_decoder :
    decoder.Yields fun b => b.IsCanonical ∧ b.data ≠ some .null := by
  refine Json.Record.Yields.decoder ?_ ⟨⟨by simp [record], by simp [record]⟩, by simp [record]⟩
  simp only [Json.Record.Yields, record, List.forall_mem_cons]
  refine ⟨?_, ?_, by simp⟩
  · refine .map fun j data hj hdata b hb => ⟨⟨?_, hb.1.errors⟩, ?_⟩
    · exact Decoder.yields_value.optional j data hj hdata
    · rintro rfl
      obtain ⟨hne, hnull⟩ := Decoder.optional_eq_ok_some_iff.mp hdata
      exact hne (Except.ok.inj hnull)
  · refine .map fun j errors hj herrors b hb => ⟨⟨hb.1.data, ?_⟩, hb.2⟩
    exact ResponseError.yields_decoder.list.optional j errors hj herrors

/-- A body comes back from the JSON value that it is written as, in whichever order the members of
that value are taken, unless its data is null. So no two bodies are written alike, and a body that
was decoded from any value comes back. -/
theorem bodies_come_back :
    (∀ b : ResponseBody, b.IsCanonical → b.data ≠ some .null →
      ResponseBody.decoder.Recovers b.toJson b) ∧
    (∀ b b' : ResponseBody, b.IsCanonical → b.data ≠ some .null → b'.IsCanonical →
      b'.data ≠ some .null → b.toJson.canonical = b'.toJson.canonical → b = b') ∧
    ∀ j b, j.IsCanonical → ResponseBody.decoder.ofJson j = .ok b →
      ResponseBody.decoder.Recovers b.toJson b := by
  refine ⟨fun b hb hdata => ResponseBody.recovers_toJson hb hdata,
    fun b b' hb hdata hb' hdata' heq => ?_, fun j b hj h => ?_⟩
  · have hsorted := (ResponseBody.recovers_toJson hb hdata).sorted
    rw [heq, (ResponseBody.recovers_toJson hb' hdata').sorted] at hsorted
    exact (Except.ok.inj hsorted).symm
  · obtain ⟨hb, hdata⟩ := ResponseBody.yields_decoder j b hj h
    exact ResponseBody.recovers_toJson hb hdata

end MutationInput

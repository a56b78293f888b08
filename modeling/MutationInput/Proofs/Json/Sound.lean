import MutationInput.Proofs.Json.Records

/-!
# Decoding from any text

A decoder is *sound* if whatever it decodes from a text is what it decodes from the value that the
text denotes. Other than for a faithful one, objects may repeat names: a record is then refused in
a text for a member that comes twice, where the value has the last one only. But it is not decoded
as anything else, `Record.Regular.sound_decoder`.
-/
namespace MutationInput.Json

namespace Decoder

variable {α β : Type} {decoder : Decoder α}

/-- What is decoded from a text is what is decoded from the value that the text denotes. -/
def Sound (decoder : Decoder α) : Prop :=
  ∀ ⦃d s j rest⦄, readTree d s = .ok (j, rest) →
    Confirms rest (decoder.ofJson j.canonical) (decoder.read d s)

theorem sound_value : value.Sound := fun _ _ _ _ h => .of_accords (accords_value h)

theorem sound_string : string.Sound := fun _ _ _ _ h => .of_accords (accords_string h)

theorem sound_unsigned : unsigned.Sound := fun _ _ _ _ h => .of_accords (accords_unsigned h)

theorem sound_sortedEntries : (value.entries.map sortMembers).Sound :=
  fun _ _ _ _ h => .of_accords (accords_sortedEntries h)

theorem Sound.map (h : decoder.Sound) (f : α → β) : (decoder.map f).Sound :=
  fun _ _ _ _ hread => (h hread).map f

theorem Sound.optional (h : decoder.Sound) : decoder.optional.Sound := by
  intro d s j rest hread
  rcases decoder.optional_cases hread with ⟨hjson, htext⟩ | ⟨hjson, htext⟩
  · rw [hjson, htext]
    exact .ok none
  · rw [hjson, htext]
    exact (h ((readTree_skipGap d s).trans hread)).map some

theorem Sound.list (h : decoder.Sound) : decoder.list.Sound := by
  intro d s j rest hread
  cases treeAt_of_readTree hread with
  | scalar no_array no_object is_scalar read =>
      rw [canonical_of_isScalar is_scalar]
      simp only [Decoder.list]
      cases j with
      | array items => exact is_scalar.elim
      | _ => exact .of_accords (accords_refuse _ _ _)
  | @object _ _ _ _ members brace read =>
      simp only [Decoder.list, brace, canonical, ofMembers]
      exact .error _ _
  | array bracket read =>
      simp only [Decoder.list, bracket, canonical, canonicalItems_eq_map, List.mapM_map]
      exact Confirms.comparison.readArray read (shrinks_readTree _) fun t j r _ _ hj => h hj

/-- What is decoded from a text as a whole. -/
theorem Sound.ofJson_eq_ok (h : decoder.Sound) {s : Source} {j : Json} {x : α}
    (hj : Json.parse s = .ok j) (hx : decoder.parse s = .ok x) : decoder.ofJson j = .ok x := by
  obtain ⟨rest, hread, -⟩ := readAll_eq_ok_iff.mp hj
  rw [readValue_eq] at hread
  obtain ⟨⟨tree, rest'⟩, htree, heq⟩ := map_eq_ok_iff.mp hread
  cases heq
  obtain ⟨rest'', hx, -⟩ := readAll_eq_ok_iff.mp hx
  have hsound := h htree
  rw [hx] at hsound
  exact hsound.eq_ok.1

end Decoder

namespace Record

variable {α : Type} {r : Record α}

/-! ## Members that come again -/

/-- Members whose names the record does not know make no difference. -/
theorem storeMembers_filter (r : Record α) (es : List (String × Json)) (x : α) :
    r.storeMembers (es.filter fun e => (r.find? e.1).isSome) x = r.storeMembers es x := by
  induction es generalizing x with
  | nil => rfl
  | cons e es ih =>
      rw [List.filter_cons]
      cases hm : r.find? e.1 with
      | none => simpa [storeMembers, hm] using ih x
      | some m => simp [storeMembers, hm, ih]

/-- Of the names for which `known` holds, sorting leaves all that are not repeated. -/
theorem perm_filter_sortMembers (known : String → Bool) {es : List (String × Json)}
    (h : ((es.filter fun e => known e.1).map Prod.fst).Nodup) :
    ((sortMembers es).filter fun e => known e.1).Perm (es.filter fun e => known e.1) := by
  have hsorted : (sortMembers es).Nodup := (ascending_sortMembers es).nodup.of_map _
  refine (List.perm_ext_iff_of_nodup (hsorted.filter _) (h.of_map _)).mpr fun e => ?_
  simp only [List.mem_filter]
  refine and_congr_left fun hknown => ⟨mem_of_mem_sortMembers, fun he => ?_⟩
  obtain ⟨j, hlast⟩ := Dict.exists_isLast (List.mem_map_of_mem (f := Prod.fst) he)
  have hmem : ((e.1, j) : String × Json) ∈ es.filter fun e => known e.1 :=
    List.mem_filter.mpr ⟨hlast.mem, hknown⟩
  have heq := List.inj_on_of_nodup_map h hmem (List.mem_filter.mpr ⟨he, hknown⟩) rfl
  rw [← heq]
  exact mem_sortMembers_iff.mpr hlast

/-- Members that are stored one after the other repeat no name that the record knows. -/
theorem foldlM_stepMember_eq_ok {members : List (String × Json)} {seen seen' : List String}
    {x y : α} (h : members.foldlM r.stepMember (seen, x) = .ok (seen', y)) :
    r.storeMembers (canonicalMembers members) x = .ok y ∧
      seen' = r.seeing seen (members.map Prod.fst) ∧
      ((members.filter fun e => (r.find? e.1).isSome).map Prod.fst).Nodup ∧
      ∀ e ∈ members.filter fun e => (r.find? e.1).isSome, e.1 ∉ seen := by
  induction members generalizing seen x with
  | nil =>
      cases h
      exact ⟨rfl, rfl, List.nodup_nil, by simp⟩
  | cons e members ih =>
      obtain ⟨⟨seen₁, x₁⟩, hstep, hrest⟩ := bind_eq_ok_iff.mp h
      obtain ⟨hstore, hseen, hnodup, hnew⟩ := ih hrest
      have hseeing : r.seeing seen ((e :: members).map Prod.fst) =
          r.seeing (if (r.find? e.1).isSome then e.1 :: seen else seen) (members.map Prod.fst) :=
        rfl
      rw [canonicalMembers, hseeing, List.filter_cons]
      simp only [stepMember] at hstep
      cases hm : r.find? e.1 with
      | none =>
          simp only [hm] at hstep
          cases hstep
          exact ⟨by simpa only [storeMembers, hm] using hstore, hseen, hnodup, hnew⟩
      | some m =>
          simp only [hm] at hstep
          split at hstep
          · cases hstep
          · next hcontains =>
              obtain ⟨f, hf, heq⟩ := map_eq_ok_iff.mp hstep
              cases heq
              have he : e.1 ∉ seen := by simpa using hcontains
              refine ⟨?_, hseen, ?_, ?_⟩
              · simp only [storeMembers, hm, hf]
                exact hstore
              · simp only [Option.isSome_some, if_true, List.map_cons, List.nodup_cons]
                refine ⟨fun hmem => ?_, hnodup⟩
                obtain ⟨e', he', heq⟩ := List.mem_map.mp hmem
                exact hnew e' he' (by simp [heq])
              · simp only [Option.isSome_some, if_true, List.forall_mem_cons]
                exact ⟨he, fun e' he' hmem => hnew e' he' (List.mem_cons_of_mem _ hmem)⟩

/-- Members that are stored one after the other are stored alike when they are sorted. -/
theorem Regular.storeMembers_sorted (h : r.Regular) {members : List (String × Json)} {x y : α}
    (hnodup : ((members.filter fun e => (r.find? e.1).isSome).map Prod.fst).Nodup)
    (hy : r.storeMembers (canonicalMembers members) x = .ok y) :
    r.storeMembers (sortMembers (canonicalMembers members)) x = .ok y := by
  have hkeys : ((canonicalMembers members).filter fun e => (r.find? e.1).isSome).map Prod.fst =
      (members.filter fun e => (r.find? e.1).isSome).map Prod.fst := by
    simp [canonicalMembers_eq_map, List.filter_map, Function.comp_def]
  rw [← hkeys] at hnodup
  rw [← r.storeMembers_filter] at hy ⊢
  exact h.storeMembers_perm
    (perm_filter_sortMembers (fun key => (r.find? key).isSome) hnodup).symm hnodup hy

/-! ## Reading a record -/

/-- What is read from an object is what is decoded from it. -/
theorem Regular.confirms_object (h : r.Regular) (hsound : ∀ m ∈ r.members, m.decoder.Sound)
    {d : Nat} {t rest : Source} {members : List (String × Json)}
    (hread : readEntries (readTree d) t = .ok (members, rest)) :
    Confirms rest (r.ofJson (ofMembers (canonicalMembers members)))
      (readObject readString (r.readMember d) ([], r.blank) t >>=
        fun (((seen, x), s) : _ × Source) =>
          match r.missing? seen with
          | some _ => throw .mismatch
          | none => return (x, s)) := by
  have hloop := Confirms.comparison.readObject hread (shrinks_readTree d) (fun _ _ _ hk => hk)
    (fun state _ k j _ _ _ hmember => r.compare_readMember Confirms.comparison hmember
      (fun m hm _ hvalue => hsound m hm hvalue) state) ([], r.blank)
  generalize hobject : readObject readString (r.readMember d) ([], r.blank) t = q at hloop
  cases q with
  | error fault => exact .error _ fault
  | ok q =>
      obtain ⟨⟨seen, x⟩, rest'⟩ := q
      obtain ⟨hfold, rfl⟩ := hloop.eq_ok
      obtain ⟨hstore, rfl, hnodup, -⟩ := foldlM_stepMember_eq_ok hfold
      have hsorted := h.storeMembers_sorted hnodup hstore
      have hmissing : r.missing? (r.seeing [] (members.map Prod.fst)) =
          r.missing? ((sortMembers (canonicalMembers members)).map Prod.fst) := by
        refine r.missing?_congr fun key hknown => ?_
        rw [mem_seeing_iff, mem_keys_sortMembers_iff, canonicalMembers_eq_map]
        simp [hknown, Function.comp_def]
      simp only [ofJson, ofMembers, hsorted, ← hmissing, bind, Except.bind]
      cases r.missing? (r.seeing [] (members.map Prod.fst)) with
      | some key => exact .error _ _
      | none => exact .ok x

/-- A regular record is what is decoded from the value that the text denotes, if its members are. -/
theorem Regular.sound_decoder (h : r.Regular) (hsound : ∀ m ∈ r.members, m.decoder.Sound) :
    r.decoder.Sound := by
  intro d s j rest hread
  change Confirms rest (r.ofJson j.canonical) (r.read d s)
  cases treeAt_of_readTree hread with
  | scalar no_array no_object is_scalar read =>
      rw [canonical_of_isScalar is_scalar]
      simp only [Record.read]
      cases j with
      | array items => exact is_scalar.elim
      | object members => exact is_scalar.elim
      | _ => exact .of_accords (accords_refuse _ _ _)
  | array bracket read =>
      simp only [Record.read, bracket]
      exact r.compare_array Confirms.comparison read
        (fun m hm _ _ _ _ hvalue => hsound m hm hvalue) r.blank
  | object brace read =>
      simp only [Record.read, brace]
      exact h.confirms_object hsound read

end Record

end MutationInput.Json

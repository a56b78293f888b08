import MutationInput.Http.Endpoint
import Mathlib.Data.List.TakeWhile

/-!
# The parts of an address

`Endpoint.Addresses` says which texts are addresses by the parts that they are put together from: a
word for the scheme, slashes, perhaps a user, a host, perhaps a port, and the place at the host. The
parts are found again by cutting the text up, and so an endpoint is read from exactly the texts that
are addresses of it, `Endpoint.parse?_eq_some_iff`.
-/
namespace MutationInput.Http

/-! ## Runs of a class -/

section Runs

variable {p : Char → Bool} {run rest : List Char}

theorem takeWhile_append_of_stop (hrun : ∀ c ∈ run, p c = true)
    (hrest : ∀ c ∈ rest.head?, p c = false) : (run ++ rest).takeWhile p = run := by
  rw [List.takeWhile_append_of_pos hrun]
  cases rest with
  | nil => simp
  | cons c rest => simp [hrest c rfl]

theorem dropWhile_append_of_stop (hrun : ∀ c ∈ run, p c = true)
    (hrest : ∀ c ∈ rest.head?, p c = false) : (run ++ rest).dropWhile p = rest := by
  rw [List.dropWhile_append_of_pos hrun]
  cases rest with
  | nil => simp
  | cons c rest => simp [hrest c rfl]

theorem head?_dropWhile_stops (p : Char → Bool) (cs : List Char) :
    ∀ c ∈ (cs.dropWhile p).head?, p c = false := by
  intro c hc
  have h := List.head?_dropWhile_not p cs
  rw [Option.mem_def.mp hc] at h
  simpa using h

/-- No character of a run is a mark that is not in it. -/
theorem ne_of_notMem {mark : Char} (h : mark ∉ run) : ∀ c ∈ run, (c != mark) = true := by
  intro c hc
  have hne : c ≠ mark := fun heq => h (heq ▸ hc)
  simpa using hne

theorem notMem_takeWhile_ne (mark : Char) (cs : List Char) :
    mark ∉ cs.takeWhile (· != mark) := by
  intro hmem
  simpa using List.mem_takeWhile_imp hmem

/-- Where a text is cut at its first mark. -/
theorem eq_append_of_dropWhile_ne {mark c : Char} {cs : List Char}
    (h : cs.dropWhile (· != mark) = c :: rest) : cs = cs.takeWhile (· != mark) ++ mark :: rest := by
  have hstop := head?_dropWhile_stops (· != mark) cs c (by rw [h]; rfl)
  obtain rfl := bne_eq_false_iff_eq.mp hstop
  rw [← h, List.takeWhile_append_dropWhile]

end Runs

/-! ## Schemes, hosts and ports -/

theorem Scheme.ofWord?_eq_some_iff {cs : List Char} {scheme : Scheme} :
    ofWord? cs = some scheme ↔ cs.map Char.toLower = scheme.word.toList := by
  have hword : ∀ s : String, String.ofList (cs.map Char.toLower) = s ↔
      cs.map Char.toLower = s.toList := fun s => by
    rw [← String.toList_inj, String.toList_ofList]
  simp only [ofWord?, hword]
  cases scheme with
  | http =>
      split
      · next h => simp [h, word]
      · next h => simpa [word] using h
  | https =>
      split
      · next h => simp [h, word]
      · next h =>
          split
          · next h' => simp [h', word]
          · next h' => simpa [word] using h'

/-- A host is written in brackets, or without them and without colons. -/
inductive Host.IsWritten (lib : Library) : List Char → Host → Prop where
  | long {cs : List Char} {host : Host} (closed : ']' ∉ cs) (read : long? cs = some host) :
      IsWritten lib ('[' :: (cs ++ [']'])) host
  | named {cs : List Char} {host : Host} (unbracketed : cs.head? ≠ some '[') (undivided : ':' ∉ cs)
      (read : named? lib cs = some host) : IsWritten lib cs host

namespace Endpoint

/-- A port is absent, left out behind its colon, or a number of sixteen bits. -/
inductive IsPort (scheme : Scheme) : List Char → Nat → Prop where
  | absent : IsPort scheme [] scheme.port
  | empty : IsPort scheme [':'] scheme.port
  | number {digits : List Char} (some_digit : digits ≠ [])
      (decimal : ∀ c ∈ digits, c.isDigit = true) (small : Numeral.value digits < UInt16.size) :
      IsPort scheme (':' :: digits) (Numeral.value digits)

theorem port?_eq_some_iff {scheme : Scheme} {cs : List Char} {n : Nat} :
    port? scheme cs = some n ↔ IsPort scheme cs n := by
  constructor
  · intro h
    match cs with
    | [] =>
        cases h
        exact .absent
    | mark :: digits =>
        simp only [port?] at h
        split at h
        · cases h
        · next hmark =>
            simp only [Bool.or_eq_true, bne_iff_ne, Bool.not_eq_true', not_or, not_not,
              Bool.not_eq_false, List.all_eq_true] at hmark
            obtain ⟨rfl, hdigits⟩ := hmark
            split at h
            · next hempty =>
                cases h
                rw [List.isEmpty_iff.mp hempty]
                exact .empty
            · next hempty =>
                split at h
                · next hsmall =>
                    cases h
                    exact .number (fun heq => hempty (by simp [heq])) hdigits hsmall
                · cases h
  · intro h
    cases h with
    | absent => rfl
    | empty => rfl
    | number some_digit decimal small =>
        simp [port?, List.all_eq_true.mpr decimal, some_digit, small]

theorem IsPort.head? {scheme : Scheme} {cs : List Char} {n : Nat} (h : IsPort scheme cs n) :
    ∀ c ∈ cs.head?, c = ':' := by
  intro c hc
  cases h <;> cases hc <;> rfl

theorem hostAndPort?_of_bracket {lib : Library} {scheme : Scheme} {cs : List Char} :
    hostAndPort? lib scheme ('[' :: cs) =
      match cs.dropWhile (· != ']') with
      | [] => none
      | _ :: port => do
        return (← Host.long? (cs.takeWhile (· != ']')), ← port? scheme port) := rfl

theorem hostAndPort?_of_unbracketed {lib : Library} {scheme : Scheme} {cs : List Char}
    (h : cs.head? ≠ some '[') : hostAndPort? lib scheme cs = do
      return (← Host.named? lib (cs.takeWhile (· != ':')),
        ← port? scheme (cs.dropWhile (· != ':'))) := by
  unfold hostAndPort?
  split
  · exact absurd rfl h
  · rfl

/-- Behind a bracket stands a long address, the other bracket and the port. -/
theorem hostAndPort?_bracket_eq_some_iff {lib : Library} {scheme : Scheme} {cs : List Char}
    {host : Host} {n : Nat} : hostAndPort? lib scheme ('[' :: cs) = some (host, n) ↔
      ∃ inside after, cs = inside ++ ']' :: after ∧ ']' ∉ inside ∧
        Host.long? inside = some host ∧ IsPort scheme after n := by
  rw [hostAndPort?_of_bracket]
  constructor
  · intro h
    split at h
    · cases h
    · next mark port hdrop =>
        simp only [Option.bind_eq_bind, Option.bind_eq_some_iff, pure, Option.some.injEq,
          Prod.mk.injEq] at h
        obtain ⟨_, hread, _, hport, rfl, rfl⟩ := h
        exact ⟨_, port, eq_append_of_dropWhile_ne hdrop, notMem_takeWhile_ne ']' cs, hread,
          port?_eq_some_iff.mp hport⟩
  · rintro ⟨inside, after, rfl, hclosed, hread, hport⟩
    have hrun := ne_of_notMem hclosed
    have hstop : ∀ c ∈ (']' :: after).head?, (c != ']') = false := by simp
    rw [← port?_eq_some_iff] at hport
    rw [dropWhile_append_of_stop hrun hstop, takeWhile_append_of_stop hrun hstop]
    simp [hread, hport]

/-- Without a bracket a name stands before the port. -/
theorem hostAndPort?_unbracketed_eq_some_iff {lib : Library} {scheme : Scheme} {cs : List Char}
    (h : cs.head? ≠ some '[') {host : Host} {n : Nat} :
    hostAndPort? lib scheme cs = some (host, n) ↔
      ∃ name after, cs = name ++ after ∧ ':' ∉ name ∧
        Host.named? lib name = some host ∧ IsPort scheme after n := by
  rw [hostAndPort?_of_unbracketed h]
  constructor
  · intro hread
    simp only [Option.bind_eq_bind, Option.bind_eq_some_iff, pure, Option.some.injEq,
      Prod.mk.injEq] at hread
    obtain ⟨_, hread, _, hport, rfl, rfl⟩ := hread
    exact ⟨_, _, List.takeWhile_append_dropWhile.symm, notMem_takeWhile_ne ':' cs, hread,
      port?_eq_some_iff.mp hport⟩
  · rintro ⟨name, after, rfl, hundivided, hread, hport⟩
    have hrun := ne_of_notMem hundivided
    have hstop : ∀ c ∈ after.head?, (c != ':') = false := by
      intro c hc
      simp [hport.head? c hc]
    rw [← port?_eq_some_iff] at hport
    rw [takeWhile_append_of_stop hrun hstop, dropWhile_append_of_stop hrun hstop]
    simp [hread, hport]

/-- A bracket at the front is not that of a port. -/
theorem head?_of_head?_append {scheme : Scheme} {before after : List Char} {n : Nat}
    (hport : IsPort scheme after n) (h : (before ++ after).head? = some '[') :
    before.head? = some '[' := by
  rw [List.head?_append] at h
  rcases Option.or_eq_some_iff.mp h with h | ⟨-, h⟩
  · exact h
  · exact absurd (hport.head? _ h) (by decide)

/-- The host and the port are read from what they are written as. -/
theorem hostAndPort?_eq_some_iff {lib : Library} {scheme : Scheme} {cs : List Char} {host : Host}
    {n : Nat} : hostAndPort? lib scheme cs = some (host, n) ↔
      ∃ before after, cs = before ++ after ∧ host.IsWritten lib before ∧ IsPort scheme after n := by
  constructor
  · intro h
    by_cases hhead : cs.head? = some '['
    · obtain ⟨rest, rfl⟩ := List.head?_eq_some_iff.mp hhead
      obtain ⟨inside, after, rfl, hclosed, hread, hport⟩ := hostAndPort?_bracket_eq_some_iff.mp h
      exact ⟨_, after, by simp, .long hclosed hread, hport⟩
    · obtain ⟨name, after, rfl, hundivided, hread, hport⟩ :=
        (hostAndPort?_unbracketed_eq_some_iff hhead).mp h
      have hname : name.head? ≠ some '[' := fun hmark => hhead (by simp [List.head?_append, hmark])
      exact ⟨name, after, rfl, .named hname hundivided hread, hport⟩
  · rintro ⟨before, after, rfl, hwritten, hport⟩
    cases hwritten with
    | @long cs host closed read =>
        rw [List.cons_append, List.append_assoc, List.singleton_append]
        exact hostAndPort?_bracket_eq_some_iff.mpr ⟨cs, after, rfl, closed, read, hport⟩
    | named unbracketed undivided read =>
        have hhead := mt (head?_of_head?_append hport) unbracketed
        exact (hostAndPort?_unbracketed_eq_some_iff hhead).mpr
          ⟨before, after, rfl, undivided, read, hport⟩

/-! ## Whole addresses -/

/-- What stands before a host is empty or ends with an at sign, and no at sign is left behind it. -/
theorem splitUser_eq_iff {cs user site : List Char} :
    splitUser cs = (user, site) ↔
      cs = user ++ site ∧ (∀ c ∈ user.getLast?, c = '@') ∧ '@' ∉ site := by
  constructor
  · intro h
    cases h
    refine ⟨?_, fun c hc => ?_, fun hmem => ?_⟩
    · rw [← List.reverse_append, List.takeWhile_append_dropWhile, List.reverse_reverse]
    · rw [List.getLast?_reverse] at hc
      simpa using head?_dropWhile_stops _ _ c hc
    · exact notMem_takeWhile_ne '@' _ (List.mem_reverse.mp hmem)
  · rintro ⟨rfl, huser, hsite⟩
    have hrun : ∀ c ∈ site.reverse, (c != '@') = true :=
      ne_of_notMem (mt List.mem_reverse.mp hsite)
    have hstop : ∀ c ∈ user.reverse.head?, (c != '@') = false := by
      intro c hc
      rw [List.head?_reverse] at hc
      simp [huser c hc]
    rw [splitUser, List.reverse_append, dropWhile_append_of_stop hrun hstop,
      takeWhile_append_of_stop hrun hstop, List.reverse_reverse, List.reverse_reverse]

/-- What is written behind the slashes of an address: perhaps a user, a host, perhaps a port, and
the place at the host. -/
inductive Locates (lib : Library) (cs : List Char) (e : Endpoint) : Prop where
  | parts {user host port place : List Char} (written : cs = user ++ (host ++ port) ++ place)
      (inside : ∀ c ∈ user ++ (host ++ port), endsAuthority c = false)
      (user_ends : ∀ c ∈ user.getLast?, c = '@')
      (credentials : e.credentials = credentials? user)
      (no_user : '@' ∉ host ++ port)
      (hosted : e.host.IsWritten lib host)
      (ported : IsPort e.scheme port e.port)
      (place_starts : ∀ c ∈ place.head?, endsAuthority c = true)
      (target : e.target = String.ofList (targetOf place))
      (short : addressLength e (fragmentOf place) ≤ maxAddress) : Locates lib cs e

/-- A text is the address of an endpoint: the characters of it that count are a word for the scheme,
a colon, slashes and what is written behind them. -/
inductive Addresses (lib : Library) (s : String) (e : Endpoint) : Prop where
  | parts {word slashes rest : List Char}
      (written : significant s = word ++ ':' :: (slashes ++ rest))
      (spelled : word.map Char.toLower = e.scheme.word.toList)
      (slashed : ∀ c ∈ slashes, isSlash c = true)
      (locates : Locates lib rest e) : Addresses lib s e

theorem locates_of_locate? {lib : Library} {scheme : Scheme} {cs : List Char} {e : Endpoint}
    (h : locate? lib scheme cs = some e) : e.scheme = scheme ∧ Locates lib cs e := by
  obtain ⟨user, site, hsplit⟩ : ∃ user site,
      splitUser (cs.takeWhile (!endsAuthority ·)) = (user, site) := ⟨_, _, rfl⟩
  obtain ⟨hauthority, huser, hat⟩ := splitUser_eq_iff.mp hsplit
  simp only [locate?, hsplit, Option.bind_eq_bind, Option.bind_eq_some_iff] at h
  obtain ⟨⟨host, port⟩, hsite, h⟩ := h
  obtain ⟨before, after, rfl, hhost, hport⟩ := hostAndPort?_eq_some_iff.mp hsite
  split at h
  · next hlength =>
      cases h
      have hwritten : cs = user ++ (before ++ after) ++ cs.dropWhile (!endsAuthority ·) := by
        rw [← hauthority, List.takeWhile_append_dropWhile]
      refine ⟨rfl, .parts hwritten ?_ huser rfl hat hhost hport ?_ rfl hlength⟩
      · intro c hc
        rw [← hauthority] at hc
        simpa using List.mem_takeWhile_imp hc
      · intro c hc
        simpa using head?_dropWhile_stops _ _ c hc
  · cases h

theorem Locates.locate?_eq {lib : Library} {cs : List Char} {e : Endpoint} (h : Locates lib cs e) :
    locate? lib e.scheme cs = some e := by
  cases h with
  | @parts user host port place written inside user_ends credentials no_user hosted ported
      place_starts target short =>
      have hrun : ∀ c ∈ user ++ (host ++ port), (!endsAuthority c) = true := by
        simpa using inside
      have hstop : ∀ c ∈ place.head?, (!endsAuthority c) = false := by
        simpa using place_starts
      have hsplit := splitUser_eq_iff.mpr ⟨rfl, user_ends, no_user⟩
      have hsite := hostAndPort?_eq_some_iff.mpr ⟨_, _, rfl, hosted, ported⟩
      have he : e = ⟨e.scheme, credentials? user, e.host, e.port,
          String.ofList (targetOf place)⟩ := by
        rw [← credentials, ← target]
      rw [locate?, written, takeWhile_append_of_stop hrun hstop,
        dropWhile_append_of_stop hrun hstop, hsplit]
      simp only [hsite, Option.bind_eq_bind, Option.bind_some, ← he, short, if_true]

/-- A host is written with at least one character. -/
theorem ne_nil_of_isWritten {lib : Library} {cs : List Char} {host : Host}
    (h : host.IsWritten lib cs) : cs ≠ [] := by
  cases h with
  | long => simp
  | named _ _ read =>
      rintro rfl
      cases read

/-- What is written behind the slashes is not empty, and does not start with another one. -/
theorem Locates.head? {lib : Library} {cs : List Char} {e : Endpoint} (h : Locates lib cs e) :
    ∃ c rest, cs = c :: rest ∧ isSlash c = false := by
  cases h with
  | @parts user host port place written inside user_ends credentials no_user hosted =>
      obtain ⟨c, rest, hrest⟩ : ∃ c rest, user ++ (host ++ port) = c :: rest :=
        List.exists_cons_of_ne_nil (by simp [ne_nil_of_isWritten hosted])
      have hc := inside c (by simp [hrest])
      rw [endsAuthority, Bool.or_eq_false_iff, Bool.or_eq_false_iff] at hc
      exact ⟨c, rest ++ place, by rw [written, hrest, List.cons_append], hc.1.1⟩

/-- The word for a scheme has no colon. -/
theorem notMem_colon_of_spelled {word : List Char} {scheme : Scheme}
    (h : word.map Char.toLower = scheme.word.toList) : ':' ∉ word := by
  intro hmem
  have hcolon : ':' ∈ scheme.word.toList := h ▸ List.mem_map_of_mem (f := Char.toLower) hmem
  cases scheme <;> revert hcolon <;> decide

/-- An endpoint is read from exactly the texts that are addresses of it. -/
theorem parse?_eq_some_iff {lib : Library} {s : String} {e : Endpoint} :
    parse? lib s = some e ↔ Addresses lib s e := by
  constructor
  · intro h
    simp only [parse?, Option.bind_eq_bind, Option.bind_eq_some_iff] at h
    obtain ⟨scheme, hscheme, h⟩ := h
    obtain ⟨rfl, hlocates⟩ := locates_of_locate? h
    cases hcolon : (significant s).dropWhile (· != ':') with
    | nil =>
        obtain ⟨c, rest, hnil, -⟩ := hlocates.head?
        rw [hcolon] at hnil
        cases hnil
    | cons mark rest =>
        rw [hcolon, List.drop_one, List.tail_cons] at hlocates
        have hwritten : significant s = (significant s).takeWhile (· != ':') ++
            ':' :: (rest.takeWhile isSlash ++ rest.dropWhile isSlash) := by
          rw [List.takeWhile_append_dropWhile]
          exact eq_append_of_dropWhile_ne hcolon
        exact .parts hwritten (Scheme.ofWord?_eq_some_iff.mp hscheme)
          (fun c hc => List.mem_takeWhile_imp hc) hlocates
  · intro h
    cases h with
    | @parts word slashes rest written spelled slashed locates =>
        obtain ⟨c, cs, hrest, hc⟩ := locates.head?
        have hrun := ne_of_notMem (notMem_colon_of_spelled spelled)
        have hstop : ∀ c ∈ (':' :: (slashes ++ rest)).head?, (c != ':') = false := by simp
        have hslash : ∀ c ∈ rest.head?, isSlash c = false := by
          intro c' hc'
          rw [hrest] at hc'
          cases hc'
          exact hc
        rw [parse?, written, takeWhile_append_of_stop hrun hstop,
          dropWhile_append_of_stop hrun hstop, List.drop_one, List.tail_cons,
          dropWhile_append_of_stop slashed hslash, Scheme.ofWord?_eq_some_iff.mpr spelled]
        exact locates.locate?_eq

/-- A user, an address in brackets and a port of its own. -/
example : parse? .basic " HTTPS:\\ada:@[0:0::1.2.3.4]:8443?x#y" =
    some ⟨.https, some ⟨"ada", none⟩, .v6 #v[0, 0, 0, 0, 0, 0, 0x102, 0x304], 8443, "/?x"⟩ := by
  decide

/-- A host whose last part is a number is an address of thirty-two bits or none at all. -/
example : (parse? .basic "http://0x7f.1/").map authority = some "127.0.0.1" ∧
    parse? .basic "http://1.2.3.400/" = none := by
  decide

theorem isSome_parse?_iff {lib : Library} {s : String} :
    (parse? lib s).isSome = true ↔ ∃ e, Addresses lib s e := by
  simp only [Option.isSome_iff_exists, parse?_eq_some_iff]

end Endpoint

end MutationInput.Http

import Docsage.Infrastructure.DatabaseUrl

/-! # The connection settings of a database URL

The values that were percent-encoded into a URL come out of `Parse` again, and a connection
string of values that stand without quotes is read back as these values. Behind them it
always sets the size of the pool.
-/

namespace Docsage.DotNet
open Text PercentEncoding ConnectionString

/-- The size of the pool, which every connection string sets. -/
def poolSize : Pair := setting "maximum pool size" "20"

/-- Values that come back as they are: `System.Uri` keeps the host, the port is one, the name of
the database is unreserved, and the others stand in a connection string without quotes. -/
structure ReadBack (system : UriSystem) (info : DatabaseConnectionInfo) : Prop where
  host_kept : system.host (encode info.host.toList) = some info.host.toList
  host_nonempty : info.host ≠ ""
  host_plain : PlainValue connectionClasses info.host.toList
  port_positive : 0 < info.port
  port_bound : info.port < 65536
  database_unreserved : ∀ c ∈ info.database.toList, isUnreserved c = true
  database_not_dots : info.database ≠ "." ∧ info.database ≠ ".."
  username_plain : PlainValue connectionClasses info.username.toList
  password_plain : PlainValue connectionClasses info.password.toList

theorem takeWhile_stop {p : Char → Bool} {xs rest : List Char} {c : Char}
    (h : ∀ x ∈ xs, p x = true) (hc : p c = false) : (xs ++ c :: rest).takeWhile p = xs := by
  rw [List.takeWhile_append_of_pos h, List.takeWhile_cons_of_neg (by simp [hc]), List.append_nil]

theorem unreserved_range {c : Char} (h : isUnreserved c = true) :
    0x2D ≤ c.toNat ∧ c.toNat ≤ 0x7E := by
  simp only [isUnreserved, Bool.or_eq_true, Bool.and_eq_true, decide_eq_true_eq, beq_iff_eq] at h
  omega

/-- A visible ASCII character is no white space and no control character. -/
theorem visible_of_range {c : Char} (low : 0x21 ≤ c.toNat) (high : c.toNat ≤ 0x7E) :
    isWhiteSpace c = false ∧ isControl c = false := by
  simp only [isWhiteSpace, isSeparator, isControl, Bool.or_eq_false_iff, Bool.and_eq_false_iff,
    decide_eq_false_iff_not, beq_eq_false_iff_ne]
  omega

theorem not_white_of_unreserved {c : Char} (h : isUnreserved c = true) :
    isWhiteSpace c = false := by
  have hrange := unreserved_range h
  exact (visible_of_range (by omega) hrange.2).1

/-- Encoded text has no white space and no mark that ends the authority. -/
theorem encoded_char {cs : List Char} {c : Char} (h : c ∈ encode cs) :
    endsAuthority c = false ∧ isWhiteSpace c = false := by
  constructor
  · cases hend : endsAuthority c with
    | false => rfl
    | true =>
      simp only [endsAuthority, Bool.or_eq_true, beq_iff_eq] at hend
      rcases hend with ((rfl | rfl) | rfl) | rfl <;>
        exact absurd h (not_mem_encode (by decide) (by decide) cs)
  · rcases mem_encode h with h | rfl
    · exact not_white_of_unreserved h
    · decide

theorem digit_unreserved {n : ℕ} {c : Char} (h : c ∈ Nat.toDigits 10 n) :
    c.isDigit = true ∧ isUnreserved c = true := by
  have hdigit := Nat.isDigit_of_mem_toDigits (by decide) (by decide) h
  refine ⟨hdigit, ?_⟩
  rw [Char.isDigit, Bool.and_eq_true, decide_eq_true_eq, decide_eq_true_eq] at hdigit
  have hlow : 48 ≤ c.toNat := hdigit.1
  have hhigh : c.toNat ≤ 57 := hdigit.2
  simp only [isUnreserved, Bool.or_eq_true, Bool.and_eq_true, decide_eq_true_eq]
  omega

theorem digit_char {n : ℕ} {c : Char} (h : c ∈ Nat.toDigits 10 n) :
    endsAuthority c = false ∧ isWhiteSpace c = false := by
  rw [← encode_eq_self fun c hc => (digit_unreserved hc).2] at h
  exact encoded_char h

/-- What stands before the path, with the digits of the port. -/
def urlAuthority (info : DatabaseConnectionInfo) (digits : List Char) : List Char :=
  (encode info.username.toList ++ ':' :: encode info.password.toList) ++ '@' ::
    (encode info.host.toList ++ ':' :: digits)

theorem databaseUrl_toList (scheme : UrlScheme) (info : DatabaseConnectionInfo) {n : ℕ}
    (port : info.port = n) : (databaseUrl scheme info).toList = scheme.text.toList ++
      (urlAuthority info (Nat.toDigits 10 n) ++ '/' :: encode info.database.toList) := by
  have hport : info.port.repr.toList = Nat.toDigits 10 n := by
    rw [port]
    exact Nat.toList_repr
  simp [databaseUrl, escapeDataString, urlAuthority, hport]

theorem normalizeScheme_text (scheme : UrlScheme) (rest : List Char) :
    normalizeScheme (scheme.text.toList ++ rest) = "postgresql://".toList ++ rest := by
  cases scheme <;> rfl

theorem port?_digits (system : UriSystem) (scheme : List Char) {n : ℕ} (bound : n < 65536) :
    system.port? scheme (':' :: Nat.toDigits 10 n) = some (n : ℤ) := by
  have hdigits : (Nat.toDigits 10 n).all Char.isDigit = true :=
    List.all_eq_true.mpr fun c hc => (digit_unreserved hc).1
  unfold UriSystem.port?
  split
  · next heq => cases heq
  · next heq => exact absurd (List.cons.inj heq).2 Nat.toDigits_ne_nil
  · next digits heq =>
    obtain rfl := (List.cons.inj heq).2
    simp [hdigits, bound]
  · next hne => exact absurd rfl (hne _)

theorem hostPart_encode (cs digits : List Char) :
    hostPart (encode cs ++ ':' :: digits) = encode cs := by
  have hbracket : (encode cs ++ ':' :: digits).head? ≠ some '[' := by
    cases h : encode cs with
    | nil => simp
    | cons c rest =>
      have hc : '[' ∉ encode cs := not_mem_encode (by decide) (by decide) cs
      rw [h, List.mem_cons] at hc
      simpa using Ne.symm (not_or.mp hc).1
  rw [hostPart, if_neg hbracket]
  refine takeWhile_stop (fun c hc => ?_) (by simp)
  have hne : c ≠ ':' := by
    rintro rfl
    exact not_mem_encode (by decide) (by decide) cs hc
  simpa using hne

/-- A character of the authority does not end it, and is no white space. -/
theorem urlAuthority_char (info : DatabaseConnectionInfo) (n : ℕ) {c : Char}
    (h : c ∈ urlAuthority info (Nat.toDigits 10 n)) :
    endsAuthority c = false ∧ isWhiteSpace c = false := by
  simp only [urlAuthority, List.mem_append, List.mem_cons] at h
  rcases h with (h | rfl | h) | rfl | h | rfl | h
  · exact encoded_char h
  · decide
  · exact encoded_char h
  · decide
  · exact encoded_char h
  · decide
  · exact digit_char h

theorem trim_databaseUrl (scheme : UrlScheme) (info : DatabaseConnectionInfo) {n : ℕ}
    (port : info.port = n) : trim (databaseUrl scheme info) = databaseUrl scheme info := by
  have hwhite : ∀ c ∈ (databaseUrl scheme info).toList, isWhiteSpace c = false := by
    intro c hc
    rw [databaseUrl_toList scheme info port, List.mem_append, List.mem_append, List.mem_cons] at hc
    rcases hc with hc | hc | rfl | hc
    · have hscheme : scheme.text.toList.all (fun c => !isWhiteSpace c) = true := by
        cases scheme <;> decide
      simpa using List.all_eq_true.mp hscheme c hc
    · exact (urlAuthority_char info n hc).2
    · decide
    · exact (encoded_char hc).2
  rw [trim, trimBy_eq_self]
  constructor
  · cases h : (databaseUrl scheme info).toList.head? with
    | none => rfl
    | some c => exact hwhite c (List.mem_of_head? h)
  · cases h : (databaseUrl scheme info).toList.getLast? with
    | none => rfl
    | some c => exact hwhite c (List.mem_of_getLast? h)

/-- The user name and the password stand before the first `@`. -/
theorem takeWhile_urlAuthority (info : DatabaseConnectionInfo) (digits : List Char) :
    (urlAuthority info digits).takeWhile (· ≠ '@') =
      encode info.username.toList ++ ':' :: encode info.password.toList := by
  refine takeWhile_stop (fun c hc => ?_) (by simp)
  have hat (cs : List Char) : '@' ∉ encode cs := not_mem_encode (by decide) (by decide) cs
  rw [decide_eq_true_eq]
  rintro rfl
  simp [hat] at hc

variable {system : UriSystem} {info : DatabaseConnectionInfo}

theorem tryCreate_postgresql (system : UriSystem) (rest : List Char) :
    system.tryCreate ("postgresql://".toList ++ rest) =
      system.hierarchical? "postgresql".toList rest := rfl

theorem ReadBack.path (h : ReadBack system info) :
    system.path ('/' :: info.database.toList) = '/' :: info.database.toList := by
  refine system.path_segment _ h.database_unreserved (fun heq => h.database_not_dots.1 ?_)
    (fun heq => h.database_not_dots.2 ?_)
  · exact String.toList_inj.mp heq
  · exact String.toList_inj.mp heq

theorem tryCreate_authority (h : ReadBack system info) {n : ℕ} (port : info.port = n) :
    system.tryCreate ("postgresql://".toList ++
        (urlAuthority info (Nat.toDigits 10 n) ++ '/' :: encode info.database.toList)) = some {
      host := info.host
      port := info.port
      userInfo := String.ofList
        (encode info.username.toList ++ ':' :: encode info.password.toList)
      absolutePath := "/" ++ info.database } := by
  have hbound : n < 65536 := by
    have := h.port_bound
    omega
  have hauthority : (urlAuthority info (Nat.toDigits 10 n) ++
      '/' :: encode info.database.toList).takeWhile (fun c => !endsAuthority c) =
      urlAuthority info (Nat.toDigits 10 n) :=
    takeWhile_stop (fun c hc => by simp [(urlAuthority_char info n hc).1]) rfl
  have hpath : ('/' :: encode info.database.toList).takeWhile (fun c => c ≠ '?' ∧ c ≠ '#') =
      '/' :: info.database.toList := by
    rw [encode_eq_self h.database_unreserved, List.takeWhile_eq_self_iff]
    rw [← encode_eq_self h.database_unreserved]
    intro c hc
    rcases List.mem_cons.mp hc with rfl | hc
    · decide
    · have hend := (encoded_char hc).1
      simp only [endsAuthority, Bool.or_eq_false_iff, beq_eq_false_iff_ne] at hend
      simpa using ⟨hend.1.2, hend.2⟩
  have hat : '@' ∈ urlAuthority info (Nat.toDigits 10 n) := by simp [urlAuthority]
  have hhostPort : (urlAuthority info (Nat.toDigits 10 n)).drop
      ((encode info.username.toList ++ ':' :: encode info.password.toList).length + 1) =
      encode info.host.toList ++ ':' :: Nat.toDigits 10 n := by
    rw [urlAuthority, List.drop_append]
    simp
  rw [tryCreate_postgresql, UriSystem.hierarchical?]
  simp only [hauthority, List.drop_left, hpath, hat, if_true, takeWhile_urlAuthority, hhostPort,
    hostPart_encode, port?_digits system _ hbound, h.host_kept, h.path]
  simp [port]

theorem parse_databaseUrl (scheme : UrlScheme) (h : ReadBack system info) :
    DatabaseConnectionInfo.parse system (databaseUrl scheme info) = .ok info := by
  obtain ⟨n, port⟩ := Int.eq_ofNat_of_zero_le h.port_positive.le
  have husername : (encode info.username.toList ++ ':' :: encode info.password.toList).takeWhile
      (· ≠ ':') = encode info.username.toList := by
    refine takeWhile_stop (fun c hc => ?_) (by simp)
    rw [decide_eq_true_eq]
    rintro rfl
    exact not_mem_encode (by decide) (by decide) _ hc
  have hpassword : (encode info.username.toList ++ ':' :: encode info.password.toList).drop
      ((encode info.username.toList).length + 1) = encode info.password.toList := by
    rw [List.drop_append]
    simp
  have hdatabase : ("/" ++ info.database).toList.dropWhile (· = '/') = info.database.toList := by
    rw [String.toList_append]
    change info.database.toList.dropWhile (· = '/') = info.database.toList
    rw [dropWhile_eq_self]
    cases hhead : info.database.toList.head? with
    | none => rfl
    | some c =>
      have hne : c ≠ '/' := by
        rintro rfl
        exact absurd (h.database_unreserved _ (List.mem_of_head? hhead)) (by decide)
      simpa using hne
  unfold DatabaseConnectionInfo.parse
  rw [trim_databaseUrl scheme info port, databaseUrl_toList scheme info port, normalizeScheme_text,
    tryCreate_authority h port]
  simp only [String.toList_ofList, husername, hpassword, unescapeDataString, decode_encode,
    hdatabase, String.ofList_toList]
  rw [if_neg h.host_nonempty, if_neg (not_le.mpr h.port_positive)]

theorem plainValue_of_unreserved {value : List Char} (h : ∀ c ∈ value, isUnreserved c = true) :
    PlainValue connectionClasses value := by
  have hne {mark : Char} (reserved : isUnreserved mark = false) {c : Char} (hc : c ∈ value) :
      c ≠ mark := by
    rintro rfl
    exact absurd (h c hc) (by simp [reserved])
  have hquote {c : Char} (hc : c ∈ value) : isQuote c = false := by
    simp only [isQuote, Bool.or_eq_false_iff, beq_eq_false_iff_ne]
    exact ⟨hne (by decide) hc, hne (by decide) hc⟩
  refine ⟨fun c hc => ⟨hne (by decide) hc, .inr ?_⟩, fun c hc => ?_, fun c hc => ?_⟩
  · have hrange := unreserved_range (h c hc)
    exact (visible_of_range (by omega) hrange.2).2
  · have hmem := List.mem_of_head? hc
    exact ⟨not_white_of_unreserved (h c hmem), hquote hmem, hne (by decide) hmem⟩
  · have hmem := List.mem_of_getLast? hc
    exact ⟨not_white_of_unreserved (h c hmem), hquote hmem⟩

def connectionKeys : List String :=
  ["Host", "Port", "Database", "Username", "Password", "Maximum Pool Size"]

theorem plainKey_of_mem {key : String} (h : key ∈ connectionKeys) :
    PlainKey connectionClasses key.toList := by
  have hkeys : connectionKeys.all (fun key => !key.toList.isEmpty &&
      key.toList.all (fun c => c != '=' && !isControl c) &&
      key.toList.head?.all (fun c => !isWhiteSpace c && c != ';') &&
      key.toList.getLast?.all (fun c => !isWhiteSpace c)) = true := by decide
  have hkey := List.all_eq_true.mp hkeys key h
  simp only [Bool.and_eq_true, List.all_eq_true, Option.all_eq_true, bne_iff_ne,
    Bool.not_eq_true', List.isEmpty_eq_false_iff] at hkey
  obtain ⟨⟨⟨nonempty, inner⟩, first⟩, last⟩ := hkey
  exact ⟨nonempty, fun c hc => ⟨(inner c hc).1, .inr (inner c hc).2⟩, first, last⟩

/-- The pairs of the connection string, as they are written. -/
def DatabaseConnectionInfo.pairs (info : DatabaseConnectionInfo) : List (String × String) :=
  [("Host", info.host), ("Port", toString info.port), ("Database", info.database),
    ("Username", info.username), ("Password", info.password), ("Maximum Pool Size", "20")]

theorem toNpgsqlConnectionString_toList (info : DatabaseConnectionInfo) :
    info.toNpgsqlConnectionString.toList =
      write (info.pairs.map fun p => (p.1.toList, p.2.toList)) := by
  unfold DatabaseConnectionInfo.toNpgsqlConnectionString
  simp [DatabaseConnectionInfo.pairs, write]

theorem plainValue_port (h : ReadBack system info) :
    PlainValue connectionClasses (toString info.port).toList := by
  obtain ⟨n, port⟩ := Int.eq_ofNat_of_zero_le h.port_positive.le
  have hdigits : (toString info.port).toList = Nat.toDigits 10 n := by
    rw [port]
    exact Nat.toList_repr
  rw [hdigits]
  exact plainValue_of_unreserved fun c hc => (digit_unreserved hc).2

/-- The connection string is read back as the five values and the size of the pool. -/
theorem read_toNpgsqlConnectionString (h : ReadBack system info) :
    read connectionClasses info.toNpgsqlConnectionString.toList =
      some (info.settings ++ [poolSize]) := by
  have hplain : ∀ p ∈ info.pairs.map fun p => (p.1.toList, p.2.toList),
      PlainKey connectionClasses p.1 ∧ PlainValue connectionClasses p.2 := by
    intro p hp
    obtain ⟨q, hq, rfl⟩ := List.mem_map.mp hp
    refine ⟨plainKey_of_mem ?_, ?_⟩
    · have hkeys : info.pairs.map (·.1) = connectionKeys := rfl
      exact hkeys ▸ List.mem_map_of_mem hq
    · simp only [DatabaseConnectionInfo.pairs, List.mem_cons, List.not_mem_nil, or_false] at hq
      rcases hq with rfl | rfl | rfl | rfl | rfl | rfl
      · exact h.host_plain
      · exact plainValue_port h
      · exact plainValue_of_unreserved h.database_unreserved
      · exact h.username_plain
      · exact h.password_plain
      · exact plainValue_of_unreserved (List.all_eq_true.mp (by decide))
  rw [toNpgsqlConnectionString_toList, read_write hplain, DatabaseConnectionInfo.pairs,
    DatabaseConnectionInfo.settings, poolSize]
  simp only [List.map_cons, List.map_nil, List.cons_append, List.nil_append]
  rfl

/-- A URL of values that come back as they are is translated to exactly these values, and the
size of the pool. -/
theorem connectionSettings_databaseUrl (system : UriSystem) (scheme : UrlScheme)
    (info : DatabaseConnectionInfo) (h : ReadBack system info) :
    connectionSettings system (databaseUrl scheme info) =
      .ok (some (info.settings ++ [poolSize])) := by
  rw [connectionSettings, parse_databaseUrl scheme h]
  exact congrArg Except.ok (read_toNpgsqlConnectionString h)

def developmentInfo : DatabaseConnectionInfo where
  host := "localhost"
  port := 5433
  database := "docsage"
  username := "docsage"
  password := "p@ss:w/o?rd"

theorem developmentInfo_readBack : ReadBack asciiUris developmentInfo where
  host_kept := by decide
  host_nonempty := by decide
  host_plain := plainValue_of_unreserved (List.all_eq_true.mp (by decide))
  port_positive := by decide
  port_bound := by decide
  database_unreserved := List.all_eq_true.mp (by decide)
  database_not_dots := by decide
  username_plain := plainValue_of_unreserved (List.all_eq_true.mp (by decide))
  password_plain := by
    have hinner : developmentInfo.password.toList.all (fun c => c != ';' && !isControl c) = true :=
      by decide
    refine ⟨fun c hc => ?_, fun c hc => ?_, fun c hc => ?_⟩
    · have hclass := List.all_eq_true.mp hinner c hc
      rw [Bool.and_eq_true, bne_iff_ne, Bool.not_eq_true'] at hclass
      exact ⟨hclass.1, .inr hclass.2⟩
    · obtain rfl := Option.some.inj hc
      decide
    · obtain rfl := Option.some.inj hc
      decide

theorem connectionSettings_databaseUrl_development :
    ReadBack asciiUris developmentInfo ∧
      connectionSettings asciiUris (databaseUrl .sqlAlchemy developmentInfo) =
        .ok (some (developmentInfo.settings ++ [poolSize])) :=
  ⟨developmentInfo_readBack,
    connectionSettings_databaseUrl asciiUris .sqlAlchemy developmentInfo developmentInfo_readBack⟩

/-- The size of the pool is a setting that is in no URL. -/
theorem pool_size_added : ¬ ∀ (system : UriSystem) (scheme : UrlScheme)
    (info : DatabaseConnectionInfo),
    connectionSettings system (databaseUrl scheme info) = .ok (some info.settings) := by
  intro h
  have hread := read_toNpgsqlConnectionString developmentInfo_readBack
  have hclaim := h asciiUris .postgresql developmentInfo
  rw [connectionSettings, parse_databaseUrl .postgresql developmentInfo_readBack, Except.map,
    hread] at hclaim
  have hlength := congrArg List.length (Option.some.inj (Except.ok.inj hclaim))
  revert hlength
  decide

end Docsage.DotNet

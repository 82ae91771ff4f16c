import WavelogRelay.Configuration.Model
import WavelogRelay.Library.IpAddr
import WavelogRelay.Library.Lines

/-!
# Configuration — the text of an endpoint

`Endpoint` of `rigctld.rs`: `from_str`, which the command line, the environment and TOML go
through, and `Display`.  It is a socket address, or else a host and a port, split at the last
colon.  The text of a `SocketAddr` is that of `core::net`.

* `SocketAddr.fromStr_toText`: a socket address is read back, but for its flow information.
* `Endpoint.fromStr_toText_iff`: which endpoints are read back.
* `Endpoint.reparsed`: one that has been read is, unless it is an IPv4 address that was taken for a
  host, as its port had a sign.
-/

namespace WavelogRelay.Configuration
open Library

/-! ### Socket addresses -/

/-- The last `k` groups of 16 bits of a number. -/
def groupsOf : Nat → Nat → List UInt16
  | 0, _ => []
  | k + 1, n => groupsOf k (n / 65536) ++ [.ofNat n]

/-- The number of groups of 16 bits. -/
def ofGroups (gs : List UInt16) : Nat := gs.foldl (fun n g => n * 65536 + g.toNat) 0

/-- `Ipv6Addr::segments`. -/
def segments (address : BitVec 128) : List UInt16 := groupsOf 8 address.toNat

def portSyntax : NumberSyntax :=
  { radix := 10, maxDigits := none, allowZeroPrefix := true, max := 0xffff }

def scopeSyntax : NumberSyntax := { portSyntax with max := 0xffffffff }

/-- `read_port`. -/
def readPort : Scan UInt16 := fun s => do
  let (port, s) ← number portSyntax (← given ':' s)
  return (.ofNat port, s)

/-- `read_scope_id`. -/
def readScopeId : Scan UInt32 := fun s => do
  let (scopeId, s) ← number scopeSyntax (← given '%' s)
  return (.ofNat scopeId, s)

/-- `read_socket_addr_v4`. -/
def readV4 : Scan SocketAddr := fun s => do
  let (ip, s) ← ipv4 s
  let (port, s) ← readPort s
  return (.v4 ip.a ip.b ip.c ip.d port, s)

/-- `read_socket_addr_v6`. -/
def readV6 : Scan SocketAddr := fun s => do
  let (ip, s) ← ipv6 (← given '[' s)
  let (scopeId, s) := (readScopeId s).getD (0, s)
  let (port, s) ← readPort (← given ']' s)
  return (.v6 (.ofNat 128 (ofGroups ip)) port 0 scopeId, s)

def SocketAddr.fromStr (s : Text) : Option SocketAddr :=
  match (readV4 s).or (readV6 s) with
  -- nothing may be left
  | some (addr, []) => some addr
  | _ => none

def SocketAddr.toText : SocketAddr → Text
  | .v4 a b c d port => (⟨a, b, c, d⟩ : Ipv4Addr).toText ++ ':' :: numeral 10 port.toNat
  | .v6 address port _ scopeId =>
      let scope := if scopeId = 0 then [] else '%' :: numeral 10 scopeId.toNat
      '[' :: (ipv6Text (segments address) ++ scope ++ ']' :: ':' :: numeral 10 port.toNat)

/-! ### Endpoints -/

inductive EndpointParseError where
  | missingPort (s : Text)
  | invalidPort (port : Text)
  | emptyHost (s : Text)
  | ambiguousIpv6 (raw addr : Text)
  deriving DecidableEq, Repr

/-- `parse::<u16>`. -/
def parseU16 (s : Text) : Option UInt16 := (parseUnsigned 0xffff s).map .ofNat

def Endpoint.fromStr (s : Text) : Except EndpointParseError Endpoint :=
  match SocketAddr.fromStr s with
  | some addr => .ok (.resolved addr)
  | none =>
      match rsplitOnce ':' s with
      | none => .error (.missingPort s)
      | some (name, port) =>
          if name = [] then .error (.emptyHost s)
          else if ':' ∈ name then .error (.ambiguousIpv6 s name)
          else
            match parseU16 port with
            | none => .error (.invalidPort port)
            | some port => .ok (.host name port)

def Endpoint.toText : Endpoint → Text
  | .resolved addr => addr.toText
  | .host name port => name ++ ':' :: decimal port.toNat

/-! ### The groups of an address -/

theorem length_groupsOf : ∀ k n, (groupsOf k n).length = k
  | 0, _ => rfl
  | k + 1, n => by
      rw [groupsOf, List.length_append, length_groupsOf k]
      rfl

def groupBound : Nat → Nat
  | 0 => 1
  | k + 1 => 65536 * groupBound k

theorem ofGroups_groupsOf : ∀ k n, n < groupBound k → ofGroups (groupsOf k n) = n
  | 0, n, h => (Nat.lt_one_iff.mp h).symm
  | k + 1, n, h => by
      have ih := ofGroups_groupsOf k (n / 65536) (Nat.div_lt_of_lt_mul h)
      have hsnoc : ofGroups (groupsOf k (n / 65536) ++ [.ofNat n]) =
          ofGroups (groupsOf k (n / 65536)) * 65536 + n % 65536 := by
        simp [ofGroups, List.foldl_append]
      rw [groupsOf, hsnoc, ih, Nat.div_add_mod']

theorem ofGroups_segments (address : BitVec 128) :
    BitVec.ofNat 128 (ofGroups (segments address)) = address := by
  have hlt : address.toNat < groupBound 8 := address.isLt
  rw [segments, ofGroups_groupsOf 8 _ hlt, BitVec.ofNat_toNat, BitVec.setWidth_eq]

/-! ### What is written is read -/

/-- What is read of a socket address. -/
def SocketAddr.withoutFlow : SocketAddr → SocketAddr
  | .v4 a b c d port => .v4 a b c d port
  | .v6 address port _ scopeId => .v6 address port 0 scopeId

theorem ends_nil {p : Char → Bool} : Ends p [] := fun c hc => by cases hc

theorem readPort_numeral (port : UInt16) :
    readPort (':' :: numeral 10 port.toNat) = some (port, []) := by
  have hmax : port.toNat ≤ portSyntax.max := Nat.le_of_lt_succ port.toNat_lt
  have hnum : number portSyntax (numeral 10 port.toNat ++ []) = some (port.toNat, []) :=
    number_numeral (by decide) (by decide) hmax (fun m hm => by cases hm) ends_nil
  rw [List.append_nil] at hnum
  simp [readPort, hnum]

theorem readScopeId_numeral (scopeId : UInt32) {rest : Text}
    (h : Ends (isDigitOf 10) rest) :
    readScopeId ('%' :: (numeral 10 scopeId.toNat ++ rest)) = some (scopeId, rest) := by
  have hmax : scopeId.toNat ≤ scopeSyntax.max := Nat.le_of_lt_succ scopeId.toNat_lt
  have hnum : number scopeSyntax (numeral 10 scopeId.toNat ++ rest) = some (scopeId.toNat, rest) :=
    number_numeral (by decide) (by decide) hmax (fun m hm => by cases hm) h
  simp [readScopeId, hnum]

theorem readV4_text (x : Ipv4Addr) (port : UInt16) :
    readV4 (x.toText ++ ':' :: numeral 10 port.toNat) =
      some (.v4 x.a x.b x.c x.d port, []) := by
  have hip : ipv4 (x.toText ++ ':' :: numeral 10 port.toNat) =
      some (x, ':' :: numeral 10 port.toNat) :=
    ipv4_iff.mpr ⟨rfl, fun c hc => by cases hc; rfl⟩
  simp [readV4, hip, readPort_numeral]

/-- The scope is read where it is written, and is zero where it is not. -/
theorem readScopeId_scope (scopeId : UInt32) (s : Text) :
    (readScopeId ((if scopeId = 0 then [] else '%' :: numeral 10 scopeId.toNat) ++ ']' :: s)).getD
        (0, (if scopeId = 0 then [] else '%' :: numeral 10 scopeId.toNat) ++ ']' :: s) =
      (scopeId, ']' :: s) := by
  split
  · rename_i h
    subst h
    rfl
  · have hread := readScopeId_numeral scopeId (fun c hc => by cases hc; rfl :
      Ends (isDigitOf 10) (']' :: s))
    rw [List.cons_append, hread]
    rfl

theorem readV6_text (address : BitVec 128) (port : UInt16) (flowinfo scopeId : UInt32) :
    readV6 (SocketAddr.v6 address port flowinfo scopeId).toText =
      some (.v6 address port 0 scopeId, []) := by
  have hscope := readScopeId_scope scopeId (':' :: numeral 10 port.toNat)
  have hcloses : Closes ((if scopeId = 0 then [] else '%' :: numeral 10 scopeId.toNat) ++
      ']' :: ':' :: numeral 10 port.toNat) := by
    split
    · exact fun c hc => by cases hc; decide
    · exact fun c hc => by cases hc; decide
  simp only [SocketAddr.toText]
  generalize (if scopeId = 0 then [] else '%' :: numeral 10 scopeId.toNat) = scope at hscope hcloses
  have hip := ipv6_toText (length_groupsOf 8 address.toNat) hcloses
  change ipv6 (ipv6Text (segments address) ++ _) = some (segments address, _) at hip
  simp only [readV6, given_cons, Option.bind_eq_bind, Option.bind_some, List.append_assoc, hip,
    hscope, readPort_numeral, ofGroups_segments]
  rfl

theorem readV4_none {s : Text} (h : Ends (isDigitOf 16) s) : readV4 s = none := by
  rw [readV4, ipv4_none h]
  rfl

/-- **A socket address is read back**, but for its flow information, which is not written. -/
theorem SocketAddr.fromStr_toText (addr : SocketAddr) :
    SocketAddr.fromStr addr.toText = some addr.withoutFlow := by
  cases addr with
  | v4 a b c d port =>
      have h := readV4_text ⟨a, b, c, d⟩ port
      simp only [SocketAddr.fromStr, SocketAddr.toText, h, Option.some_or]
      rfl
  | v6 address port flowinfo scopeId =>
      have hnone : readV4 (SocketAddr.v6 address port flowinfo scopeId).toText = none :=
        readV4_none fun c hc => by
          cases hc
          rfl
      simp only [SocketAddr.fromStr, hnone, Option.none_or, readV6_text]
      rfl

/-! ### A host and a port -/

/-- What is read as a socket address is read whole. -/
theorem SocketAddr.fromStr_eq_some {s : Text} {addr : SocketAddr}
    (h : SocketAddr.fromStr s = some addr) :
    readV4 s = some (addr, []) ∨ readV6 s = some (addr, []) := by
  rw [SocketAddr.fromStr] at h
  split at h
  · rename_i addr' hor
    cases h
    cases h4 : readV4 s with
    | some r =>
        rw [h4, Option.some_or] at hor
        exact .inl hor
    | none =>
        rw [h4, Option.none_or] at hor
        exact .inr hor
  · cases h

/-- A port ends with its digits, which follow its colon. -/
theorem readPort_eq_some {s : Text} {port : UInt16} (h : readPort s = some (port, [])) :
    ∃ ds, s = ':' :: ds ∧ (∀ c ∈ ds, isDigitOf 10 c = true) ∧ numeralValue 10 ds = port.toNat := by
  simp only [readPort, Option.bind_eq_bind, Option.bind_eq_some_iff, Prod.exists] at h
  obtain ⟨t, ht, n, r, hn, heq⟩ := h
  cases heq
  obtain ⟨ds, rfl, hall, -, href, hvalue⟩ := number_eq_some hn
  obtain ⟨-, -, -, hmax⟩ := refuses_eq_false_iff.mp href
  refine ⟨ds, ?_, hall, ?_⟩
  · rw [given_eq_some_iff.mp ht, List.append_nil]
  · rw [hvalue] at hmax
    exact hvalue.trans (Nat.mod_eq_of_lt (Nat.lt_succ_of_le hmax)).symm

theorem readV4_eq_some {s : Text} {addr : SocketAddr} (h : readV4 s = some (addr, [])) :
    ∃ (x : Ipv4Addr) (port : UInt16) (ds : Text), addr = .v4 x.a x.b x.c x.d port ∧
      s = x.toText ++ ':' :: ds ∧ (∀ c ∈ ds, isDigitOf 10 c = true) ∧
        numeralValue 10 ds = port.toNat := by
  simp only [readV4, Option.bind_eq_bind, Option.bind_eq_some_iff, Prod.exists] at h
  obtain ⟨x, t, hx, port, r, hport, heq⟩ := h
  cases heq
  obtain ⟨ds, rfl, hall, hvalue⟩ := readPort_eq_some hport
  exact ⟨x, port, ds, rfl, (ipv4_iff.mp hx).1, hall, hvalue⟩

/-- An IPv6 address has no flow information, and two colons beside that of its port. -/
theorem readV6_eq_some {s : Text} {addr : SocketAddr} (h : readV6 s = some (addr, [])) :
    addr.withoutFlow = addr ∧ 2 ≤ colons s := by
  simp only [readV6, Option.bind_eq_bind, Option.bind_eq_some_iff, Prod.exists] at h
  obtain ⟨t, ht, ip, t', hip, h⟩ := h
  have hcolons := colons_ipv6 hip
  rw [given_eq_some_iff.mp ht]
  obtain ⟨_, _, port, _, _, heq⟩ := h
  cases heq
  refine ⟨rfl, ?_⟩
  have hcons : colons ('[' :: t) = colons t := List.count_cons_of_ne (by decide)
  rw [hcons]
  exact Nat.le_trans (Nat.le_add_left 2 _) hcolons

theorem decimal_eq_numeral (n : Nat) : decimal n = numeral 10 n := rfl

theorem colon_not_digits {ds : Text} (h : ∀ c ∈ ds, isDigitOf 10 c = true) : ':' ∉ ds := fun hc =>
  by cases h ':' hc

theorem rsplitOnce_hostPort (name : Text) (port : UInt16) :
    rsplitOnce ':' (name ++ ':' :: decimal port.toNat) = some (name, decimal port.toNat) :=
  rsplitOnce_eq_some_iff.mpr ⟨rfl, not_mem_decimal (by decide) _⟩

/-- **A host and a port are read as a socket address** only if the host is an IPv4 address. -/
theorem fromStr_hostPort {name : Text} {port : UInt16} {addr : SocketAddr} (hname : ':' ∉ name)
    (h : SocketAddr.fromStr (name ++ ':' :: decimal port.toNat) = some addr) :
    ∃ x : Ipv4Addr, name = x.toText ∧ addr = .v4 x.a x.b x.c x.d port := by
  have hdigits : ':' ∉ decimal port.toNat := not_mem_decimal (by decide) _
  rcases SocketAddr.fromStr_eq_some h with h4 | h6
  · obtain ⟨x, port', ds, rfl, hs, hall, hvalue⟩ := readV4_eq_some h4
    have hsplit := rsplitOnce_eq_some_iff.mpr ⟨hs, colon_not_digits hall⟩
    rw [rsplitOnce_hostPort] at hsplit
    obtain ⟨rfl, rfl⟩ := Prod.mk.inj (Option.some.inj hsplit)
    rw [decimal_eq_numeral, numeralValue_numeral (by decide) (by decide)] at hvalue
    obtain rfl : port = port' := UInt16.toNat_inj.mp hvalue
    exact ⟨x, rfl, rfl⟩
  · have hcolons := (readV6_eq_some h6).2
    have hone : colons (name ++ ':' :: decimal port.toNat) = 1 := by
      simp [colons, List.count_eq_zero.mpr hname, List.count_eq_zero.mpr hdigits]
    omega

theorem parseU16_decimal (port : UInt16) : parseU16 (decimal port.toNat) = some port := by
  rw [parseU16, parseUnsigned_decimal (Nat.le_of_lt_succ port.toNat_lt)]
  simp

/-! ### Endpoints -/

/-- It has no flow information; a host is neither empty nor has it a colon, and it is no IPv4
address. -/
def Endpoint.Canonical : Endpoint → Prop
  | .resolved addr => addr.withoutFlow = addr
  | .host name _ => name ≠ [] ∧ ':' ∉ name ∧ ∀ x : Ipv4Addr, name ≠ x.toText

theorem Endpoint.fromStr_resolved (addr : SocketAddr) :
    Endpoint.fromStr (Endpoint.resolved addr).toText = .ok (.resolved addr.withoutFlow) := by
  simp only [Endpoint.fromStr, Endpoint.toText, SocketAddr.fromStr_toText]

/-- **The endpoints that are read back** are the canonical ones. -/
theorem Endpoint.fromStr_toText_iff (e : Endpoint) :
    Endpoint.fromStr e.toText = .ok e ↔ e.Canonical := by
  cases e with
  | resolved addr =>
      rw [fromStr_resolved]
      constructor
      · intro h
        exact Endpoint.resolved.inj (Except.ok.inj h)
      · intro h
        exact congrArg (Except.ok ∘ Endpoint.resolved) h
  | host name port =>
      rw [Endpoint.fromStr, Endpoint.toText, rsplitOnce_hostPort]
      constructor
      · intro h
        split at h
        · cases h
        · rename_i hnone
          simp only at h
          split at h
          · cases h
          rename_i hne
          split at h
          · cases h
          rename_i hcolon
          refine ⟨hne, hcolon, ?_⟩
          rintro x rfl
          have h4 := SocketAddr.fromStr_toText (.v4 x.a x.b x.c x.d port)
          exact absurd (hnone.symm.trans h4) (by simp)
      · rintro ⟨hne, hcolon, hipv4⟩
        have hnone : SocketAddr.fromStr (name ++ ':' :: decimal port.toNat) = none := by
          refine Option.eq_none_iff_forall_ne_some.mpr fun addr h => ?_
          obtain ⟨x, hx, -⟩ := fromStr_hostPort hcolon h
          exact hipv4 x hx
        simp only [hnone, if_neg hne, if_neg hcolon, parseU16_decimal]

/-- A port that is parsed is scanned as well, unless it has a sign. -/
theorem readPort_of_parseU16 {ds : Text} {port : UInt16} (h : parseU16 ds = some port)
    (hsign : ∀ r, ds ≠ '+' :: r) : readPort (':' :: ds) = some (port, []) := by
  obtain ⟨n, hn, rfl⟩ := Option.map_eq_some_iff.mp h
  unfold parseUnsigned at hn
  split at hn
  · exact absurd rfl (hsign _)
  obtain ⟨hvalue, hmax⟩ := Option.filter_eq_some_iff.mp hn
  obtain ⟨hne, hall, rfl⟩ := numeralValue_of_digitsValue hvalue
  have href : portSyntax.refuses ds = false :=
    refuses_eq_false_iff.mpr ⟨hne, fun m hm => (by cases hm), .inl rfl, of_decide_eq_true hmax⟩
  have hnum : number portSyntax (ds ++ []) = some (numeralValue 10 ds, []) := by
    rw [number_digits hall ends_nil, href]
    rfl
  rw [List.append_nil] at hnum
  simp [readPort, hnum]

theorem readV4_of_readPort (x : Ipv4Addr) {ds : Text} {port : UInt16}
    (h : readPort (':' :: ds) = some (port, [])) :
    SocketAddr.fromStr (x.toText ++ ':' :: ds) = some (.v4 x.a x.b x.c x.d port) := by
  have hip : ipv4 (x.toText ++ ':' :: ds) = some (x, ':' :: ds) :=
    ipv4_iff.mpr ⟨rfl, fun c hc => by cases hc; rfl⟩
  simp [SocketAddr.fromStr, readV4, hip, h]

/-- What becomes of an endpoint that has been read from `s`, when it is written and read again. -/
inductive Reparsed (s : Text) (e : Endpoint) : Prop where
  | same (h : Endpoint.fromStr e.toText = .ok e)
  /-- Its port had a sign, so that it was no socket address. -/
  | address (x : Ipv4Addr) (port : UInt16) (he : e = .host x.toText port)
      (hsign : ∃ ds, s = x.toText ++ ':' :: '+' :: ds)
      (h : Endpoint.fromStr e.toText = .ok (.resolved (.v4 x.a x.b x.c x.d port)))
      (ht : (Endpoint.resolved (.v4 x.a x.b x.c x.d port)).toText = e.toText)

/-- **An endpoint that has been read is read back**, or it is an IPv4 address that was taken for a
host as its port had a sign, and the same text. -/
theorem Endpoint.reparsed {s : Text} {e : Endpoint} (h : Endpoint.fromStr s = .ok e) :
    Reparsed s e := by
  rw [Endpoint.fromStr] at h
  split at h
  · rename_i addr haddr
    cases h
    refine .same ((Endpoint.fromStr_toText_iff _).mpr ?_)
    rcases SocketAddr.fromStr_eq_some haddr with h4 | h6
    · obtain ⟨x, port, ds, rfl, -⟩ := readV4_eq_some h4
      rfl
    · exact (readV6_eq_some h6).1
  rename_i hnone
  split at h
  · cases h
  rename_i name ds hsplit
  obtain ⟨rfl, -⟩ := rsplitOnce_eq_some_iff.mp hsplit
  split at h
  · cases h
  rename_i hne
  split at h
  · cases h
  rename_i hcolon
  split at h
  · cases h
  rename_i port hport
  cases h
  by_cases hipv4 : ∃ x : Ipv4Addr, name = x.toText
  · obtain ⟨x, rfl⟩ := hipv4
    have hsign : ∃ r, ds = '+' :: r := by
      by_contra hno
      have hread := readPort_of_parseU16 hport fun r hr => hno ⟨r, hr⟩
      cases hnone.symm.trans (readV4_of_readPort x hread)
    obtain ⟨r, rfl⟩ := hsign
    exact .address x port rfl ⟨r, rfl⟩ (Endpoint.fromStr_resolved (.v4 x.a x.b x.c x.d port)) rfl
  · have hcanon : (Endpoint.host name port).Canonical := ⟨hne, hcolon, fun x hx => hipv4 ⟨x, hx⟩⟩
    exact .same ((Endpoint.fromStr_toText_iff _).mpr hcanon)

/-- **The round trip of an endpoint's text**, from either end. -/
theorem Endpoint.round_trip :
    (∀ e : Endpoint, Endpoint.fromStr e.toText = .ok e ↔ e.Canonical) ∧
      ∀ s e, Endpoint.fromStr s = .ok e → Reparsed s e :=
  ⟨Endpoint.fromStr_toText_iff, fun _ _ => Endpoint.reparsed⟩

/-- The default of `--rigctld` can be unwrapped. -/
example : Endpoint.fromStr "127.0.0.1:4532".toList = .ok defaultRigctldAddr := by decide

/-- With a sign before its port, an address is a host. -/
example : Endpoint.fromStr "127.0.0.1:+80".toList = .ok (.host "127.0.0.1".toList 80) := by decide

end WavelogRelay.Configuration

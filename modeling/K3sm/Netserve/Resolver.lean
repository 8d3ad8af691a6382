import K3sm.Core.Filepath

/-!
# The node's DNS resolver

Every node answers the cluster's DNS queries itself and hands the other names to the upstream
resolver of its host.  `respond` is the core of it: it classifies one query, answers what the
cluster owns from the Service set and asks the upstream about the rest.
-/

namespace K3sm.Netserve

open K3sm.Core.Filepath (Str)
open Option

/-- `unicode.ToLower` on the runes of a name. -/
structure Casing where
  lower : Char → Char
  lower_lower : ∀ char, lower (lower char) = lower char
  lower_eq_dot : ∀ char, lower char = '.' ↔ char = '.'

/-- `strings.TrimSuffix` with a single dot. -/
def trimDot (name : Str) : Str := if ['.'] <:+ name then name.dropLast else name

/-- A question's name as the message parser spells it: its labels are not empty, so no two dots
end it. -/
structure QuestionName where
  text : Str
  proper : ¬ ['.'] <:+ trimDot text

def normalizeDNSName (casing : Casing) (name : Str) : Str := (trimDot name).map casing.lower

def cutSuffix (name ending : Str) : Option Str :=
  if ending <:+ name then some (name.take (name.length - ending.length)) else none

def cutLastDot (text : Str) : Option (Str × Str) :=
  if '.' ∈ text then
    let after := (text.reverse.takeWhile (· ≠ '.')).reverse
    some (text.take (text.length - after.length - 1), after)
  else none

def svcLabel : Str := ['.', 's', 'v', 'c']

def reverseZone : Str := ['.', 'i', 'n', '-', 'a', 'd', 'd', 'r', '.', 'a', 'r', 'p', 'a']

def podLabel : Str := ['.', 'p', 'o', 'd', '.']

/-- How many labels stand before the service, the service and the namespace of a name under
the cluster's `svc` zone. -/
def parseClusterZoneName (qname domain : Str) : Option (ℕ × Str × Str) :=
  match cutSuffix qname (svcLabel ++ '.' :: domain) with
  | none => none
  | some host =>
    if host = [] ∨ host.head? = some '.' ∨ host.getLast? = some '.' ∨ ['.', '.'] <:+: host then
      none
    else
      match cutLastDot host with
      | none => none
      | some (rest, ns) =>
        match cutLastDot rest with
        | none => some (0, rest, ns)
        | some (ahead, svc) => some (ahead.count '.' + 1, svc, ns)

def inClusterDomain (qname domain : Str) : Prop := qname = domain ∨ '.' :: domain <:+ qname

instance (qname domain : Str) : Decidable (inClusterDomain qname domain) :=
  inferInstanceAs (Decidable (_ ∨ _))

abbrev IPv4 := BitVec 32

/-- One field of a dotted address: up to three digits without a leading zero, below 256. -/
def parseOctet (field : Str) : Option ℕ :=
  if field ≠ [] ∧ field.length ≤ 3 ∧ field.all Char.isDigit ∧
    (field.length = 1 ∨ field.head? ≠ some '0')
  then
    let value := field.foldl (fun total digit => 10 * total + (digit.toNat - 48)) 0
    if value < 256 then some value else none
  else none

/-- `netip.ParseAddr` where the result is an IPv4 address. -/
def parseIPv4 (text : Str) : Option IPv4 :=
  match (text.splitOn '.').map parseOctet with
  | [some first, some second, some third, some fourth] =>
    some (BitVec.ofNat 32 (((first * 256 + second) * 256 + third) * 256 + fourth))
  | _ => none

structure Prefix4 where
  base : IPv4
  bits : ℕ

def Prefix4.contains (range : Prefix4) (address : IPv4) : Bool :=
  address >>> (32 - range.bits) == range.base >>> (32 - range.bits)

/-- `addrFromReverseName`: the octets stand in the name with the last one first. -/
def addrFromReverseName (qname : Str) : Option IPv4 :=
  match cutSuffix qname reverseZone with
  | none => none
  | some reversed =>
    match reversed.splitOn '.' with
    | [fourth, third, second, first] => parseIPv4 (['.'].intercalate [first, second, third, fourth])
    | _ => none

inductive ServiceType
  | clusterIP
  | nodePort
  | loadBalancer
  | externalName
  deriving DecidableEq

structure Service where
  type : ServiceType
  externalName : Str
  clusterIP : Str

/-- `serviceTarget`: what a Service name stands for.  An ExternalName of a dot alone is neither
a name nor an address. -/
inductive Target
  | ip (address : IPv4)
  | externalName (name : Str)
  | blank
  deriving DecidableEq

def lookupService (services : Str → Str → Option Service) (ns name : Str) : Option Target :=
  match services ns name with
  | none => none
  | some svc =>
    if svc.type = .externalName ∧ svc.externalName ≠ [] then
      let name := trimDot svc.externalName
      some (if name = [] then .blank else .externalName name)
    else (parseIPv4 svc.clusterIP).map .ip

structure SrvRecord where
  priority : ℕ
  weight : ℕ
  port : ℕ
  target : Str

/-- The records synthesized for one Service, by owner name. -/
structure RecordSet where
  a : Str → List IPv4
  srv : Str → List SrvRecord

/-- The zone's optional capability to synthesize records. -/
structure IdentitySource where
  synthRecords : Str → Str → Option RecordSet
  lookupPTR : Str → Option Str

inductive QType
  | a
  | srv
  | ptr
  | other
  deriving DecidableEq

inductive Verdict
  | completed
  | refused
  | forward
  | passthrough
  deriving DecidableEq

structure Library (domain : Str) where
  resolveFlatRegistryName : QType → Str → (Str → Str → Option IPv4) → Option (List IPv4)
  completePartialName : Str → Str × Verdict
  podAddrFromName : Str → Option IPv4
  /-- A name under the reserved label is completed or refused. -/
  svc_label : ∀ qname, svcLabel <:+ qname →
    (completePartialName qname).2 = .completed ∨ (completePartialName qname).2 = .refused
  /-- A completed name is a full name of the cluster. -/
  completed_full : ∀ qname, (completePartialName qname).2 = .completed →
    inClusterDomain (completePartialName qname).1 domain

inductive RCode
  | success
  | serverFailure
  | nameError
  | notImplemented
  | badVersion
  deriving DecidableEq

structure Answer where
  a : List IPv4 := []
  srv : List SrvRecord := []
  ptr : Option Str := none

structure Response where
  answer : Answer
  rcode : RCode

inductive LookupFailure
  | notFound
  | transient

structure Resolver where
  casing : Casing
  domain : Str
  library : Library domain
  services : Str → Str → Option Service
  identity : Option IdentitySource
  podCIDR : Prefix4
  serviceCIDR : Prefix4
  /-- The upstream forwarder. -/
  lookupIP4 : Str → Except LookupFailure (List IPv4)

structure Query where
  opCode : ℕ
  ednsVersion : Option ℕ
  name : QuestionName
  type : QType

namespace Resolver

variable (resolver : Resolver)

def serviceIPv4 (ns name : Str) : Option IPv4 :=
  match lookupService resolver.services ns name with
  | some (.ip address) => some address
  | _ => none

def synthA (ns svc qname : Str) : Response :=
  match resolver.identity.bind (·.synthRecords ns svc) with
  | none => ⟨{}, .nameError⟩
  | some records =>
    if records.a qname ≠ [] then ⟨{ a := records.a qname }, .success⟩
    else if (records.srv qname).isEmpty then ⟨{}, .nameError⟩
    else ⟨{}, .success⟩

def synthSRV (ns svc qname : Str) : Response :=
  match resolver.identity.bind (·.synthRecords ns svc) with
  | none => ⟨{}, .nameError⟩
  | some records =>
    if (records.srv qname).isEmpty then
      if records.a qname ≠ [] then ⟨{}, .success⟩ else ⟨{}, .nameError⟩
    else ⟨{ srv := records.srv qname }, .success⟩

def authoritativeReverse (address : IPv4) : Bool :=
  resolver.podCIDR.contains address || resolver.serviceCIDR.contains address

def respondReverse (type : QType) (qname : Str) : Response :=
  if type ≠ .ptr then ⟨{}, .success⟩
  else
    match addrFromReverseName qname with
    | none => ⟨{}, .success⟩
    | some address =>
      if resolver.authoritativeReverse address then
        match resolver.identity.bind (·.lookupPTR qname) with
        | some target => ⟨{ ptr := some target }, .success⟩
        | none => ⟨{}, .nameError⟩
      else ⟨{}, .success⟩

/-- `forward`: the name is handed to the upstream forwarder, whatever it answers. -/
def forward (host : Str) : Response × List Str :=
  match resolver.lookupIP4 host with
  | .ok addresses => (⟨{ a := addresses }, .success⟩, [host])
  | .error .notFound => (⟨{}, .nameError⟩, [host])
  | .error .transient => (⟨{}, .serverFailure⟩, [host])

def respondService (type : QType) (qname ns svc : Str) : Response × List Str :=
  match type with
  | .a =>
    match lookupService resolver.services ns svc with
    | none => (resolver.synthA ns svc qname, [])
    | some (.externalName target) =>
      if inClusterDomain target resolver.domain then (⟨{}, .nameError⟩, [])
      else resolver.forward target
    | some (.ip address) => (⟨{ a := [address] }, .success⟩, [])
    | some .blank => (⟨{}, .success⟩, [])
  | .srv => (resolver.synthSRV ns svc qname, [])
  | _ => (⟨{}, .success⟩, [])

/-- The switch over the zones, for a name that is completed. -/
def respondZone (type : QType) (qname : Str) : Response × List Str :=
  if reverseZone <:+ qname then (resolver.respondReverse type qname, [])
  else
    match parseClusterZoneName qname resolver.domain with
    | some (0, svc, ns) => resolver.respondService type qname ns svc
    | some (_ + 1, svc, ns) =>
      match type with
      | .a => (resolver.synthA ns svc qname, [])
      | .srv => (resolver.synthSRV ns svc qname, [])
      | _ => (⟨{}, .success⟩, [])
    | none =>
      if podLabel ++ resolver.domain <:+ qname then
        if type = .a then
          match resolver.library.podAddrFromName qname with
          | some address => (⟨{ a := [address] }, .success⟩, [])
          | none => (⟨{}, .nameError⟩, [])
        else (⟨{}, .success⟩, [])
      else if inClusterDomain qname resolver.domain then (⟨{}, .nameError⟩, [])
      else if type = .a then resolver.forward qname
      else (⟨{}, .success⟩, [])

def qname (query : Query) : Str := normalizeDNSName resolver.casing query.name.text

/-- The name the zones are asked about, or nothing where the query is answered before. -/
def zoneName (query : Query) : Option Str :=
  if query.opCode ≠ 0 ∨ (∃ version ∈ query.ednsVersion, 0 < version) then none
  else if (resolver.library.resolveFlatRegistryName query.type (resolver.qname query)
      resolver.serviceIPv4).isSome then none
  else
    match resolver.library.completePartialName (resolver.qname query) with
    | (full, .completed) => some full
    | (_, .refused) => none
    | _ => some (resolver.qname query)

/-- The response to a query and the names handed upstream for it. -/
def respond (query : Query) : Response × List Str :=
  if query.opCode ≠ 0 then (⟨{}, .notImplemented⟩, [])
  else if ∃ version ∈ query.ednsVersion, 0 < version then (⟨{}, .badVersion⟩, [])
  else
    match resolver.library.resolveFlatRegistryName query.type (resolver.qname query)
        resolver.serviceIPv4 with
    | some addresses => (⟨{ a := addresses }, .success⟩, [])
    | none =>
      match resolver.library.completePartialName (resolver.qname query) with
      | (full, .completed) => resolver.respondZone query.type full
      | (_, .refused) => (⟨{}, .nameError⟩, [])
      | _ => resolver.respondZone query.type (resolver.qname query)

/-- A name that belongs to the cluster: its domain, a name under it, under the reserved
label or in the reverse zone, in any spelling. -/
def Owned (name : Str) : Prop :=
  inClusterDomain (normalizeDNSName resolver.casing name) resolver.domain ∨
    svcLabel <:+ normalizeDNSName resolver.casing name ∨
    reverseZone <:+ normalizeDNSName resolver.casing name

instance (name : Str) : Decidable (resolver.Owned name) := inferInstanceAs (Decidable (_ ∨ _ ∨ _))

def namedTarget (query : Query) : Option Str :=
  match resolver.zoneName query with
  | none => none
  | some zone =>
    if query.type = .a ∧ ¬ reverseZone <:+ zone then
      match parseClusterZoneName zone resolver.domain with
      | some (0, svc, ns) =>
        match lookupService resolver.services ns svc with
        | some (.externalName target) => some target
        | _ => none
      | _ => none
    else none

variable {resolver}

theorem forward_asks (host : Str) : (resolver.forward host).2 = [host] := by
  rw [forward]
  split <;> rfl

theorem respond_asks (query : Query) :
    (resolver.respond query).2 =
      (resolver.zoneName query).elim [] fun zone => (resolver.respondZone query.type zone).2 := by
  rw [respond, zoneName]
  by_cases hopCode : query.opCode ≠ 0
  · rw [if_pos hopCode, if_pos (.inl hopCode)]
    rfl
  rw [if_neg hopCode]
  by_cases hversion : ∃ version ∈ query.ednsVersion, 0 < version
  · rw [if_pos hversion, if_pos (.inr hversion)]
    rfl
  rw [if_neg hversion, if_neg (not_or.2 ⟨hopCode, hversion⟩)]
  cases resolver.library.resolveFlatRegistryName query.type (resolver.qname query)
      resolver.serviceIPv4 with
  | some addresses => rfl
  | none =>
    rcases resolver.library.completePartialName (resolver.qname query) with ⟨full, verdict⟩
    cases verdict <;> rfl

theorem respondService_asks (type : QType) (qname ns svc : Str) :
    (resolver.respondService type qname ns svc).2 =
      match type, lookupService resolver.services ns svc with
      | .a, some (.externalName target) =>
        if inClusterDomain target resolver.domain then [] else [target]
      | _, _ => [] := by
  cases type with
  | a =>
    simp only [respondService]
    cases lookupService resolver.services ns svc with
    | none => rfl
    | some target =>
      cases target with
      | ip | blank => rfl
      | externalName target =>
        dsimp only
        split
        · rfl
        · exact forward_asks target
  | srv | ptr | other => rfl

/-- A name the zones hand upstream is the queried name, off the cluster and out of the
reverse zone, or the target of a Service. -/
theorem mem_respondZone_asks {type : QType} {zone name : Str} :
    name ∈ (resolver.respondZone type zone).2 ↔
      (type = .a ∧ ¬ reverseZone <:+ zone) ∧
        match parseClusterZoneName zone resolver.domain with
        | some (0, svc, ns) =>
          lookupService resolver.services ns svc = some (.externalName name) ∧
            ¬ inClusterDomain name resolver.domain
        | some (_ + 1, _, _) => False
        | none =>
          name = zone ∧ ¬ podLabel ++ resolver.domain <:+ zone ∧
            ¬ inClusterDomain zone resolver.domain := by
  rw [respondZone]
  by_cases hreverse : reverseZone <:+ zone
  · simp [hreverse]
  rw [if_neg hreverse]
  cases parseClusterZoneName zone resolver.domain with
  | none =>
    by_cases hpod : podLabel ++ resolver.domain <:+ zone
    · simp only [hpod, if_true, not_true_eq_false, false_and, and_false]
      split
      · cases resolver.library.podAddrFromName zone <;> simp
      · simp
    · by_cases hdomain : inClusterDomain zone resolver.domain
      · simp [hpod, hdomain]
      by_cases htype : type = .a
      · simp [hpod, hdomain, htype, hreverse, forward_asks]
      · simp [hpod, hdomain, htype]
  | some parsed =>
    obtain ⟨extra, svc, ns⟩ := parsed
    cases extra with
    | zero =>
      simp only [respondService_asks]
      cases type with
      | a =>
        cases lookupService resolver.services ns svc with
        | none => simp
        | some target =>
          cases target with
          | ip | blank => simp
          | externalName target =>
            by_cases hdomain : inClusterDomain target resolver.domain
            · simp only [hdomain, if_true, List.not_mem_nil, some.injEq,
                Target.externalName.injEq, false_iff]
              rintro ⟨-, rfl, hout⟩
              exact hout hdomain
            · simp only [hdomain, if_false, List.mem_singleton, some.injEq,
                Target.externalName.injEq, hreverse, not_false_eq_true, and_self, true_and]
              constructor
              · rintro rfl
                exact ⟨rfl, hdomain⟩
              · rintro ⟨rfl, -⟩
                rfl
      | srv | ptr | other => simp
    | succ extra => cases type <;> simp

/-! ## The queried name -/

theorem trimDot_of_not_suffix {name : Str} (hname : ¬ ['.'] <:+ name) : trimDot name = name :=
  if_neg hname

theorem map_lower_last {casing : Casing} {name : Str} (hname : ¬ ['.'] <:+ name) :
    ¬ ['.'] <:+ name.map casing.lower := by
  rcases List.eq_nil_or_concat name with rfl | ⟨front, last, rfl⟩
  · exact hname
  intro hsuffix
  simp only [List.concat_eq_append, List.map_append, List.map_cons, List.map_nil,
    List.singleton_suffix_iff_getLast?_eq_some, List.getLast?_append, List.getLast?_singleton,
    some_or, some.injEq] at hsuffix hname
  exact hname ((casing.lower_eq_dot last).1 hsuffix)

theorem normalize_qname (query : Query) :
    normalizeDNSName resolver.casing (resolver.qname query) = resolver.qname query := by
  have hlast : ¬ ['.'] <:+ resolver.qname query :=
    map_lower_last query.name.proper
  rw [normalizeDNSName, trimDot_of_not_suffix hlast, qname, normalizeDNSName, List.map_map]
  exact congrArg (List.map · _) (funext resolver.casing.lower_lower)

/-- The zones are asked about a completed name of the cluster or about the queried name,
which then is not under the reserved label. -/
theorem zoneName_spec {query : Query} {zone : Str} (hzone : resolver.zoneName query = some zone) :
    inClusterDomain zone resolver.domain ∨
      zone = resolver.qname query ∧ ¬ svcLabel <:+ resolver.qname query := by
  have hlabel := resolver.library.svc_label (resolver.qname query)
  have hfull := resolver.library.completed_full (resolver.qname query)
  rw [zoneName] at hzone
  split_ifs at hzone
  rcases hcomplete : resolver.library.completePartialName (resolver.qname query)
    with ⟨full, verdict⟩
  rw [hcomplete] at hzone hlabel hfull
  cases verdict with
  | completed => exact .inl (some.inj hzone ▸ hfull rfl)
  | refused => cases hzone
  | forward | passthrough =>
    refine .inr ⟨(some.inj hzone).symm, fun hsuffix => ?_⟩
    rcases hlabel hsuffix with hverdict | hverdict <;> cases hverdict

theorem not_owned_of_forwarded {query : Query} {zone : Str}
    (hzone : resolver.zoneName query = some zone) (hreverse : ¬ reverseZone <:+ zone)
    (hdomain : ¬ inClusterDomain zone resolver.domain) : ¬ resolver.Owned zone := by
  rcases zoneName_spec hzone with hinside | ⟨rfl, hlabel⟩
  · exact absurd hinside hdomain
  · rw [Owned, normalize_qname]
    exact not_or.2 ⟨hdomain, not_or.2 ⟨hlabel, hreverse⟩⟩

/-- No name of the cluster goes upstream, exactly where the query does not ask for an
ExternalName whose target belongs to the cluster under another spelling. -/
theorem respond_asks_no_owned_name (resolver : Resolver) (query : Query) :
    (∀ name ∈ (resolver.respond query).2, ¬ resolver.Owned name) ↔
      ∀ target ∈ resolver.namedTarget query, resolver.Owned target →
        inClusterDomain target resolver.domain := by
  rw [respond_asks]
  cases hzone : resolver.zoneName query with
  | none => simp [namedTarget, hzone]
  | some zone =>
    simp only [elim_some, mem_respondZone_asks, namedTarget, hzone]
    by_cases hasked : query.type = .a ∧ ¬ reverseZone <:+ zone
    swap
    · simp [hasked]
    rw [if_pos hasked]
    cases parseClusterZoneName zone resolver.domain with
    | none =>
      refine iff_of_true ?_ (by simp)
      rintro name ⟨-, rfl, -, hdomain⟩
      exact not_owned_of_forwarded hzone hasked.2 hdomain
    | some parsed =>
      obtain ⟨extra, svc, ns⟩ := parsed
      cases extra with
      | succ extra => simp
      | zero =>
        dsimp only
        cases hlookup : lookupService resolver.services ns svc with
        | none => simp [hlookup]
        | some target =>
          cases target with
          | ip | blank => simp [hlookup]
          | externalName target =>
            simp only [hasked, hlookup, some.injEq, Target.externalName.injEq,
              mem_def, true_and, not_false_eq_true]
            constructor
            · rintro hsafe _ rfl howned
              by_contra hdomain
              exact hsafe target ⟨rfl, hdomain⟩ howned
            · rintro hspelled _ ⟨rfl, hdomain⟩ howned
              exact hdomain (hspelled _ rfl howned)

theorem toLower_eq_dot (char : Char) : char.toLower = '.' ↔ char = '.' := by
  by_cases hupper : char.isUpper
  · have hrange : 65 ≤ char.toNat ∧ char.toNat ≤ 90 := by
      simpa [Char.isUpper, UInt32.le_iff_toNat_le] using hupper
    have hlower : char.toLower.toNat = char.toNat + 32 := by
      rw [Char.toLower_eq_of_isUpper hupper, Char.toNat_ofNat, if_pos]
      exact .inl (by omega)
    constructor
    · intro hdot
      rw [hdot] at hlower
      have : ('.' : Char).toNat = 46 := rfl
      omega
    · rintro rfl
      exact absurd hrange (by decide)
  · rw [Char.toLower_eq_of_not_isUpper hupper]

def asciiCasing : Casing where
  lower := Char.toLower
  lower_lower := Char.toLower_toLower_eq_toLower
  lower_eq_dot := toLower_eq_dot

def clusterLocal : Str := ['c', 'l', 'u', 's', 't', 'e', 'r', '.', 'l', 'o', 'c', 'a', 'l']

/-- The completion the resolver's tests pin: two labels under the reserved one are completed,
any other number is refused, and no other name is touched. -/
def completeSvc (qname : Str) : Str × Verdict :=
  if svcLabel <:+ qname then
    if qname.count '.' = 2 then (qname ++ '.' :: clusterLocal, .completed) else (qname, .refused)
  else if inClusterDomain qname clusterLocal then (qname, .passthrough)
  else (qname, .forward)

def svcLibrary : Library clusterLocal where
  resolveFlatRegistryName _ _ _ := none
  completePartialName := completeSvc
  podAddrFromName _ := none
  svc_label := by
    intro qname hsuffix
    rw [completeSvc, if_pos hsuffix]
    split
    · exact .inl rfl
    · exact .inr rfl
  completed_full := by
    intro qname hcompleted
    rw [completeSvc] at hcompleted ⊢
    split_ifs at hcompleted ⊢ with hsuffix
    exact .inr (List.suffix_append qname _)

def shop : Str := ['s', 'h', 'o', 'p']

def loop : Str := ['l', 'o', 'o', 'p']

def aliasResolver : Resolver where
  casing := asciiCasing
  domain := clusterLocal
  library := svcLibrary
  services ns name :=
    if ns = shop ∧ name = loop then
      some ⟨.externalName, ['w', 'e', 'b', '.'] ++ shop ++ svcLabel, []⟩
    else none
  identity := none
  podCIDR := ⟨0x64400000, 10⟩
  serviceCIDR := ⟨0x0A2B0000, 16⟩
  lookupIP4 _ := .error .notFound

/-- An address query for `loop.shop.svc.cluster.local`. -/
def aliasQuery : Query where
  opCode := 0
  ednsVersion := none
  name := ⟨loop ++ '.' :: shop ++ svcLabel ++ '.' :: clusterLocal ++ ['.'], by decide⟩
  type := .a

theorem alias_of_svc_name_leaves :
    ¬ ∀ name ∈ (aliasResolver.respond aliasQuery).2, ¬ aliasResolver.Owned name := by
  decide

end Resolver

end K3sm.Netserve

import ComputeContract.Util.Host

/-!
# The egress guard

A URL from a counterparty is checked before it is fetched: `assertSafeEgressUrl` throws for another
scheme than HTTP, for the host of the cloud metadata, and on demand for hosts that are not
public. The texts of the hosts are looked at, so that some spellings are missed, and names that
begin like an IPv6 address are taken for one.

* `hostLaw_iff`: the hosts that are told apart;
* `egressLaw_iff`: the URLs that are.
-/

namespace ComputeContract.Market.Egress

open UrlHost

/-! ## The guard -/

/-- What is read of a URL. Those of HTTP have a domain or an address. -/
structure Url where
  protocol : String
  host : Host
  special : protocol = "http:" ∨ protocol = "https:" → ∀ text, host ≠ .other text

structure EgressOptions where
  blockPrivate : Option Bool

/-- `hostname.replace(/^\\[|\\]$/g, "")` -/
def stripBrackets (cs : List Char) : List Char :=
  let cs := if cs.head? = some '[' then cs.drop 1 else cs
  if cs.getLast? = some ']' then cs.dropLast else cs

def hostText (host : Host) : List Char := (stripBrackets host.text).map Char.toLower

def isMetadata (host : List Char) : Bool :=
  host = "169.254.169.254".toList || host = "metadata.google.internal".toList

/-- `/^172\\.(1[6-9]|2\\d|3[01])\\./`, the numbers from 16 to 31. -/
def isPrivate172 (host : List Char) : Bool :=
  (List.range' 16 16).any fun n =>
    ("172.".toList ++ (Nat.toDigits 10 n ++ ['.'])).isPrefixOf host

def isPrivate (host : List Char) : Bool :=
  host = "localhost".toList || host = "::1".toList || "127.".toList.isPrefixOf host ||
    "10.".toList.isPrefixOf host || "192.168.".toList.isPrefixOf host ||
    "169.254.".toList.isPrefixOf host || isPrivate172 host ||
    "fc".toList.isPrefixOf host || "fd".toList.isPrefixOf host

/-- Validate an untrusted egress URL; `parse` is `new URL`. -/
def assertSafeEgressUrl (parse : String → Option Url) (raw : String) (opts : EgressOptions) :
    Except String Url :=
  match parse raw with
  | none => .error s!"invalid URL: {raw}"
  | some u =>
    if u.protocol ≠ "http:" ∧ u.protocol ≠ "https:" then
      .error s!"blocked URL scheme: {u.protocol}"
    else
      let host := hostText u.host
      if isMetadata host then .error s!"blocked cloud-metadata host: {String.ofList host}"
      else if opts.blockPrivate = some true ∧ isPrivate host then
        .error s!"blocked private/loopback host: {String.ofList host}"
      else .ok u

/-! ## What it is for -/

/-- A domain is a name, with or without a dot at the end. -/
def Spells (name : String) (d : Domain) : Prop :=
  d.chars = name.toList ∨ d.chars = name.toList ++ ['.']

/-- A host that is not public. -/
def IsLocal : Host → Prop
  | .domain d => Spells "localhost" d
  | .ipv4 x => x.Local
  | .ipv6 x => x.Local
  | .other _ => False

def metadataAddress : Ipv4 := ⟨169, 254, 169, 254⟩

/-- The host of the cloud metadata. -/
def IsMetadataHost : Host → Prop
  | .domain d => Spells "metadata.google.internal" d
  | .ipv4 x => x = metadataAddress
  | .ipv6 x => x = metadataAddress.mapped
  | .other _ => False

/-- The text begins like an address in one of the local ranges of IPv6. -/
def LikeIpv6 (d : Domain) : Prop :=
  ∃ p ∈ ["fc", "fd", "fe8", "fe9", "fea", "feb"], p.toList <+: d.chars

/-- The guard keeps out the hosts that are not public, and those of the metadata in any case, and
    lets in the public names that begin like an address. Which names are public is up to the
    DNS. -/
structure EgressLaw (parse : String → Option Url) (isPublic : Domain → Prop) (raw : String) :
    Prop where
  guarded : ∀ u, assertSafeEgressUrl parse raw ⟨some true⟩ = .ok u → ¬ IsLocal u.host
  metadata : ∀ opts u, assertSafeEgressUrl parse raw opts = .ok u → ¬ IsMetadataHost u.host
  names : ∀ u d, parse raw = some u → u.protocol = "http:" ∨ u.protocol = "https:" →
    u.host = .domain d → isPublic d → LikeIpv6 d →
    assertSafeEgressUrl parse raw ⟨some true⟩ = .ok u

/-- The hosts that the guard gets right. -/
def Covered (isPublic : Domain → Prop) : Host → Prop
  | .domain d => d.chars ≠ "localhost.".toList ∧ d.chars ≠ "metadata.google.internal.".toList ∧
      (isPublic d → ¬ "fc".toList <+: d.chars ∧ ¬ "fd".toList <+: d.chars)
  | .ipv4 x => x ≠ ⟨0, 0, 0, 0⟩
  | .ipv6 x => x ≠ unspecified ∧ ¬ x.LinkLocal ∧ ∀ y : Ipv4, y.Local → x ≠ y.mapped
  | .other _ => True

/-- The guard lets the host in. -/
def Admitted (blockPrivate : Bool) (host : Host) : Prop :=
  isMetadata (hostText host) = false ∧ (blockPrivate → isPrivate (hostText host) = false)

/-- The law, for a host. -/
structure HostLaw (isPublic : Domain → Prop) (host : Host) : Prop where
  guarded : Admitted true host → ¬ IsLocal host
  metadata : ∀ blockPrivate, Admitted blockPrivate host → ¬ IsMetadataHost host
  names : ∀ d, host = .domain d → isPublic d → LikeIpv6 d → Admitted true host

theorem assertSafeEgressUrl_eq_ok {parse : String → Option Url} {raw : String}
    {opts : EgressOptions} {u : Url} : assertSafeEgressUrl parse raw opts = .ok u ↔
      parse raw = some u ∧ (u.protocol = "http:" ∨ u.protocol = "https:") ∧
        Admitted (opts.blockPrivate = some true) u.host := by
  rw [assertSafeEgressUrl]
  cases hparse : parse raw with
  | none => simp
  | some u' =>
    dsimp only
    by_cases hprotocol : u'.protocol ≠ "http:" ∧ u'.protocol ≠ "https:"
    · rw [if_pos hprotocol]
      refine iff_of_false (fun h => by cases h) ?_
      rintro ⟨heq, hhttp, -⟩
      obtain rfl := Option.some.inj heq
      exact hhttp.elim hprotocol.1 hprotocol.2
    · rw [if_neg hprotocol]
      have hhttp : u'.protocol = "http:" ∨ u'.protocol = "https:" := by
        by_contra h
        exact hprotocol (not_or.1 h)
      split_ifs with hmetadata hprivate
      · refine iff_of_false (fun h => by cases h) ?_
        rintro ⟨heq, -, h, -⟩
        obtain rfl := Option.some.inj heq
        rw [hmetadata] at h
        cases h
      · refine iff_of_false (fun h => by cases h) ?_
        rintro ⟨heq, -, -, h⟩
        obtain rfl := Option.some.inj heq
        have := h (decide_eq_true hprivate.1)
        rw [hprivate.2] at this
        cases this
      · constructor
        · rintro ⟨⟩
          refine ⟨rfl, hhttp, Bool.eq_false_iff.2 hmetadata, fun hblock => ?_⟩
          exact Bool.eq_false_iff.2 fun h => hprivate ⟨of_decide_eq_true hblock, h⟩
        · rintro ⟨heq, -⟩
          rw [Option.some.inj heq]

/-! ## The texts that are looked at -/

theorem toLower_of_not_isUpper {c : Char} (h : c.isUpper = false) : c.toLower = c :=
  dif_neg (of_decide_eq_false h)

theorem stripBrackets_eq_self {cs : List Char} (h : ∀ c ∈ cs, c ≠ '[' ∧ c ≠ ']') :
    stripBrackets cs = cs := by
  have hhead : cs.head? ≠ some '[' := fun heq => (h _ (List.mem_of_mem_head? heq)).1 rfl
  have hlast : cs.getLast? ≠ some ']' := fun heq => (h _ (List.mem_of_getLast? heq)).2 rfl
  rw [stripBrackets, if_neg hhead]
  exact if_neg hlast

/-- A host without brackets and capitals is looked at as it is. -/
theorem hostText_eq_text {host : Host}
    (h : ∀ c ∈ host.text, c.isUpper = false ∧ c ≠ '[' ∧ c ≠ ']') : hostText host = host.text := by
  rw [hostText, stripBrackets_eq_self fun c hc => (h c hc).2]
  exact (List.map_congr_left fun c hc => toLower_of_not_isUpper (h c hc).1).trans (List.map_id _)

theorem hostText_domain (d : Domain) : hostText (.domain d) = d.chars := by
  refine hostText_eq_text fun c hc => ?_
  have hvalid := List.all_eq_true.1 d.valid c hc
  rw [isDomainChar, Bool.and_eq_true, Bool.and_eq_true, decide_eq_true_eq] at hvalid
  refine ⟨by simpa using hvalid.1.2, ?_, ?_⟩
  · rintro rfl
    exact hvalid.2 (by decide)
  · rintro rfl
    exact hvalid.2 (by decide)

theorem hostText_ipv4 (x : Ipv4) : hostText (.ipv4 x) = x.text := by
  refine hostText_eq_text fun c hc => ?_
  have hdigit : ∀ n, c ∈ Nat.toDigits 10 n → c.isUpper = false ∧ c ≠ '[' ∧ c ≠ ']' := by
    intro n hn
    have hdigit := Decimal.isDigit_of_mem hn
    rw [Char.isDigit, Bool.and_eq_true, decide_eq_true_eq, decide_eq_true_eq] at hdigit
    have hle : c.val.toNat ≤ 57 := hdigit.2
    refine ⟨decide_eq_false fun h => ?_, ?_, ?_⟩
    · have hge : 65 ≤ c.val.toNat := h.1
      omega
    · rintro rfl
      exact absurd hle (by decide)
    · rintro rfl
      exact absurd hle (by decide)
  have hdot : c = '.' → c.isUpper = false ∧ c ≠ '[' ∧ c ≠ ']' := by
    rintro rfl
    decide
  rw [Host.text, Ipv4.text] at hc
  simp only [List.mem_append, List.mem_cons] at hc
  rcases hc with hc | hc | hc | hc | hc | hc | hc
  exacts [hdigit _ hc, hdot hc, hdigit _ hc, hdot hc, hdigit _ hc, hdot hc, hdigit _ hc]

theorem hostText_ipv6 (x : Ipv6) : hostText (.ipv6 x) = x.text.map Char.toLower := by
  rw [hostText, Host.text, stripBrackets]
  simp

/-! ## What is kept out -/

theorem isPrefixOf_cons_of_ne {a c : Char} (h : a ≠ c) (p cs : List Char) :
    (a :: p).isPrefixOf (c :: cs) = false := by
  rw [List.isPrefixOf, beq_eq_false_iff_ne.2 h, Bool.false_and]

/-- A text that begins like an IPv6 address, but neither like the loopback one nor with `fc` or
    `fd`, is let in. -/
theorem admitted_of_head {c : Char} {cs : List Char} {host : Host} (htext : hostText host = c :: cs)
    (hdigit : c ≠ '1') (hm : c ≠ 'm') (hl : c ≠ 'l') (hloopback : c :: cs ≠ [':', ':', '1'])
    (hfc : ¬ ['f', 'c'] <+: c :: cs) (hfd : ¬ ['f', 'd'] <+: c :: cs) (blockPrivate : Bool) :
    Admitted blockPrivate host := by
  have hne : ∀ {a : Char} (p : List Char), a ≠ c → c :: cs ≠ a :: p :=
    fun p ha heq => ha (List.cons.inj heq).1.symm
  have h172 : isPrivate172 (c :: cs) = false :=
    List.any_eq_false.2 fun n _ => by
      rw [Bool.not_eq_true]
      exact isPrefixOf_cons_of_ne hdigit.symm _ _
  have hprefix : ∀ {p : List Char}, ¬ p <+: c :: cs → p.isPrefixOf (c :: cs) = false :=
    fun h => Bool.eq_false_iff.2 fun hp => h (List.isPrefixOf_iff_prefix.1 hp)
  rw [Admitted, htext]
  refine ⟨?_, fun _ => ?_⟩
  · rw [isMetadata, Bool.or_eq_false_iff, decide_eq_false_iff_not, decide_eq_false_iff_not]
    exact ⟨hne _ hdigit.symm, hne _ hm.symm⟩
  · rw [isPrivate, h172]
    simp only [Bool.or_eq_false_iff, decide_eq_false_iff_not]
    exact ⟨⟨⟨⟨⟨⟨⟨⟨hne _ hl.symm, hloopback⟩, isPrefixOf_cons_of_ne hdigit.symm _ _⟩,
      isPrefixOf_cons_of_ne hdigit.symm _ _⟩, isPrefixOf_cons_of_ne hdigit.symm _ _⟩,
      isPrefixOf_cons_of_ne hdigit.symm _ _⟩, trivial⟩, hprefix hfc⟩, hprefix hfd⟩

/-! ## Domains -/

theorem hostLaw_domain_iff {isPublic : Domain → Prop} {d : Domain} :
    HostLaw isPublic (.domain d) ↔ Covered isPublic (.domain d) := by
  have htext := hostText_domain d
  have hdot : ∀ name : String, (name ++ ".").toList = name.toList ++ ['.'] := fun name =>
    String.toList_append
  constructor
  · intro h
    refine ⟨fun heq => ?_, fun heq => ?_, fun hpublic => ⟨fun hfc => ?_, fun hfd => ?_⟩⟩
    · refine h.guarded ?_ (.inr (heq.trans (hdot "localhost")))
      rw [Admitted, htext, heq]
      decide
    · refine h.metadata true ?_ (.inr (heq.trans (hdot "metadata.google.internal")))
      rw [Admitted, htext, heq]
      decide
    · have hprivate := (h.names d rfl hpublic ⟨"fc", by simp, hfc⟩).2 rfl
      rw [htext, isPrivate, List.isPrefixOf_iff_prefix.2 hfc, Bool.or_true, Bool.true_or] at hprivate
      cases hprivate
    · have hprivate := (h.names d rfl hpublic ⟨"fd", by simp, hfd⟩).2 rfl
      rw [htext, isPrivate, List.isPrefixOf_iff_prefix.2 hfd, Bool.or_true] at hprivate
      cases hprivate
  · rintro ⟨hlocalhost, hmetadata, hnames⟩
    refine ⟨?_, ?_, ?_⟩
    · rintro ⟨-, hprivate⟩ (heq | heq)
      · have hfalse := hprivate rfl
        rw [htext, heq] at hfalse
        exact absurd hfalse (by decide)
      · exact hlocalhost (heq.trans (hdot "localhost").symm)
    · rintro _ ⟨hfalse, -⟩ (heq | heq)
      · rw [htext, heq] at hfalse
        exact absurd hfalse (by decide)
      · exact hmetadata (heq.trans (hdot "metadata.google.internal").symm)
    · rintro _ ⟨⟩ hpublic ⟨p, hp, hprefix⟩
      obtain ⟨hfc, hfd⟩ := hnames hpublic
      have hcons : ∃ rest, d.chars = 'f' :: rest := by
        obtain ⟨rest, hrest⟩ := hprefix
        simp only [List.mem_cons, List.not_mem_nil, or_false] at hp
        rcases hp with rfl | rfl | rfl | rfl | rfl | rfl <;> exact ⟨_, hrest.symm⟩
      obtain ⟨rest, hrest⟩ := hcons
      rw [hrest] at htext hfc hfd
      exact admitted_of_head htext (by decide) (by decide) (by decide)
        (fun h => absurd (List.cons.inj h).1 (by decide)) hfc hfd true

/-! ## IPv4 addresses -/

theorem isPrivate_of_local {x : Ipv4} (h : x.Local) (hne : x ≠ ⟨0, 0, 0, 0⟩) :
    isPrivate x.text := by
  have hone : ∀ n, x.a.val = n → (Nat.toDigits 10 n ++ ['.']).isPrefixOf x.text := fun n hn =>
    List.isPrefixOf_iff_prefix.2 (isPrefixOf_iff.2 hn.symm)
  have htwo : ∀ m n, x.a.val = m → x.b.val = n →
      (Nat.toDigits 10 m ++ '.' :: (Nat.toDigits 10 n ++ ['.'])).isPrefixOf x.text :=
    fun m n hm hn => List.isPrefixOf_iff_prefix.2 (isPrefixOf_two_iff.2 ⟨hm.symm, hn.symm⟩)
  rcases h with ha | hzero | ha | ⟨ha, hle, hle'⟩ | ⟨ha, hb⟩ | ⟨ha, hb⟩
  · have h127 : "127.".toList.isPrefixOf x.text := hone 127 (congrArg Fin.val ha)
    simp only [isPrivate, h127, Bool.or_true, Bool.true_or]
  · exact absurd hzero hne
  · have h10 : "10.".toList.isPrefixOf x.text := hone 10 (congrArg Fin.val ha)
    simp only [isPrivate, h10, Bool.or_true, Bool.true_or]
  · have h172 : isPrivate172 x.text = true :=
      List.any_eq_true.2 ⟨x.b, List.mem_range'_1.2 ⟨hle, by omega⟩,
        htwo 172 x.b (congrArg Fin.val ha) rfl⟩
    simp only [isPrivate, h172, Bool.or_true, Bool.true_or]
  · have h192 : "192.168.".toList.isPrefixOf x.text :=
      htwo 192 168 (congrArg Fin.val ha) (congrArg Fin.val hb)
    simp only [isPrivate, h192, Bool.or_true, Bool.true_or]
  · have h169 : "169.254.".toList.isPrefixOf x.text :=
      htwo 169 254 (congrArg Fin.val ha) (congrArg Fin.val hb)
    simp only [isPrivate, h169, Bool.or_true, Bool.true_or]

theorem hostLaw_ipv4_iff {isPublic : Domain → Prop} {x : Ipv4} :
    HostLaw isPublic (.ipv4 x) ↔ Covered isPublic (.ipv4 x) := by
  have htext := hostText_ipv4 x
  constructor
  · rintro h rfl
    refine h.guarded ?_ (.inr (.inl rfl))
    rw [Admitted, htext]
    decide
  · intro hne
    refine ⟨?_, ?_, fun d h => by cases h⟩
    · rintro ⟨-, hprivate⟩ hlocal
      have hfalse := hprivate rfl
      rw [htext, isPrivate_of_local hlocal hne] at hfalse
      cases hfalse
    · rintro _ ⟨hfalse, -⟩ rfl
      rw [htext] at hfalse
      exact absurd hfalse (by decide)

/-! ## IPv6 addresses -/

/-- The text of an address begins with the two upper digits of its first piece. -/
theorem hostText_of_piece {x : Ipv6} {p q : ℕ} (hp : x.pieces.head? = some p) (hq : 0 < q)
    (hdiv : p / 256 = q) :
    ∃ u, hostText (.ipv6 x) = (Nat.toDigits 16 q).map Char.toLower ++ u := by
  have hne : p ≠ 0 := by
    rintro rfl
    omega
  obtain ⟨u, hu⟩ := toDigits_two hq hdiv
  obtain ⟨v, hv⟩ := Ipv6.prefix_text hp hne
  refine ⟨(u ++ v).map Char.toLower, ?_⟩
  rw [hostText_ipv6, ← hv, hu, List.append_assoc, List.map_append]

theorem admitted_of_linkLocal {x : Ipv6} (h : x.LinkLocal) (blockPrivate : Bool) :
    Admitted blockPrivate (.ipv6 x) := by
  obtain ⟨p, hp, hle, hle'⟩ := h
  obtain ⟨u, hu⟩ := hostText_of_piece hp (by decide : 0 < 0xfe) (by omega)
  have htext : hostText (.ipv6 x) = 'f' :: 'e' :: u := hu
  refine admitted_of_head htext (by decide) (by decide) (by decide) (by simp) ?_ ?_ _
  · rw [List.cons_prefix_cons, List.cons_prefix_cons]
    exact fun h => absurd h.2.1 (by decide)
  · rw [List.cons_prefix_cons, List.cons_prefix_cons]
    exact fun h => absurd h.2.1 (by decide)

theorem admitted_mapped (y : Ipv4) (blockPrivate : Bool) :
    Admitted blockPrivate (.ipv6 y.mapped) := by
  obtain ⟨u, hu⟩ := y.prefix_mapped
  have htext : hostText (.ipv6 y.mapped) = ':' :: ':' :: 'f' :: u.map Char.toLower := by
    rw [hostText_ipv6, ← hu]
    rfl
  refine admitted_of_head htext (by decide) (by decide) (by decide) (by simp) ?_ ?_ _
  · rw [List.cons_prefix_cons]
    exact fun h => absurd h.1 (by decide)
  · rw [List.cons_prefix_cons]
    exact fun h => absurd h.1 (by decide)

theorem isPrivate_of_uniqueLocal {x : Ipv6} (h : x.UniqueLocal) :
    isPrivate (hostText (.ipv6 x)) := by
  obtain ⟨p, hp, hle, hle'⟩ := h
  have hdiv : p / 256 = 0xfc ∨ p / 256 = 0xfd := by omega
  rcases hdiv with hdiv | hdiv
  · obtain ⟨u, hu⟩ := hostText_of_piece hp (by decide) hdiv
    have hfc : "fc".toList.isPrefixOf (hostText (.ipv6 x)) := by
      rw [hu, List.isPrefixOf_iff_prefix]
      exact ⟨u, rfl⟩
    simp only [isPrivate, hfc, Bool.or_true, Bool.true_or]
  · obtain ⟨u, hu⟩ := hostText_of_piece hp (by decide) hdiv
    have hfd : "fd".toList.isPrefixOf (hostText (.ipv6 x)) := by
      rw [hu, List.isPrefixOf_iff_prefix]
      exact ⟨u, rfl⟩
    simp only [isPrivate, hfd, Bool.or_true]

theorem metadataAddress_local : metadataAddress.Local :=
  .inr (.inr (.inr (.inr (.inr ⟨rfl, rfl⟩))))

theorem hostLaw_ipv6_iff {isPublic : Domain → Prop} {x : Ipv6} :
    HostLaw isPublic (.ipv6 x) ↔ Covered isPublic (.ipv6 x) := by
  constructor
  · intro h
    refine ⟨?_, fun hlink => ?_, ?_⟩
    · rintro rfl
      refine h.guarded ?_ (.inr (.inl rfl))
      rw [Admitted, hostText_ipv6]
      decide
    · exact h.guarded (admitted_of_linkLocal hlink true) (.inr (.inr (.inl hlink)))
    · rintro y hy rfl
      exact h.guarded (admitted_mapped y true) (.inr (.inr (.inr (.inr ⟨y, hy, rfl⟩))))
  · rintro ⟨hunspecified, hlink, hmapped⟩
    refine ⟨?_, ?_, fun d h => by cases h⟩
    · rintro ⟨-, hprivate⟩ (rfl | rfl | h | h | ⟨y, hy, rfl⟩)
      · have hfalse := hprivate rfl
        rw [hostText_ipv6] at hfalse
        exact absurd hfalse (by decide)
      · exact hunspecified rfl
      · exact hlink h
      · have hfalse := hprivate rfl
        rw [isPrivate_of_uniqueLocal h] at hfalse
        cases hfalse
      · exact hmapped y hy rfl
    · rintro _ - rfl
      exact hmapped metadataAddress metadataAddress_local rfl

/-! ## All hosts -/

/-- The hosts that the guard gets right: not `localhost.`, `metadata.google.internal.`, `0.0.0.0`,
    `::`, a link-local IPv6 address or one that a local IPv4 address is mapped to, nor a public
    name that begins with `fc` or `fd`. -/
theorem hostLaw_iff {isPublic : Domain → Prop} {host : Host} :
    HostLaw isPublic host ↔ Covered isPublic host := by
  cases host with
  | domain d => exact hostLaw_domain_iff
  | ipv4 x => exact hostLaw_ipv4_iff
  | ipv6 x => exact hostLaw_ipv6_iff
  | other text => exact iff_of_true ⟨fun _ => id, fun _ _ => id, fun _ h => by cases h⟩ trivial

/-- The law holds of exactly the URLs that are no URLs, have another scheme, or a host that the
    guard gets right. -/
theorem egressLaw_iff (parse : String → Option Url) (isPublic : Domain → Prop) (raw : String) :
    EgressLaw parse isPublic raw ↔ ∀ u, parse raw = some u →
      u.protocol = "http:" ∨ u.protocol = "https:" → Covered isPublic u.host := by
  constructor
  · intro h u hparse hhttp
    refine hostLaw_iff.1 ⟨fun hadmitted => ?_, fun blockPrivate hadmitted => ?_, ?_⟩
    · exact h.guarded u (assertSafeEgressUrl_eq_ok.2 ⟨hparse, hhttp, by simpa using hadmitted⟩)
    · exact h.metadata ⟨some blockPrivate⟩ u
        (assertSafeEgressUrl_eq_ok.2 ⟨hparse, hhttp, by simpa using hadmitted⟩)
    · intro d hd hpublic hlike
      simpa using (assertSafeEgressUrl_eq_ok.1 (h.names u d hparse hhttp hd hpublic hlike)).2.2
  · intro h
    refine ⟨fun u hu => ?_, fun opts u hu => ?_, ?_⟩
    · obtain ⟨hparse, hhttp, hadmitted⟩ := assertSafeEgressUrl_eq_ok.1 hu
      exact (hostLaw_iff.2 (h u hparse hhttp)).guarded (by simpa using hadmitted)
    · obtain ⟨hparse, hhttp, hadmitted⟩ := assertSafeEgressUrl_eq_ok.1 hu
      exact (hostLaw_iff.2 (h u hparse hhttp)).metadata _ hadmitted
    · intro u d hparse hhttp hd hpublic hlike
      have hadmitted := (hostLaw_iff.2 (h u hparse hhttp)).names d hd hpublic hlike
      exact assertSafeEgressUrl_eq_ok.2 ⟨hparse, hhttp, by simpa using hadmitted⟩

/-- A parser of one URL, of the unspecified address. -/
def parseUnspecified (raw : String) : Option Url :=
  if raw = "http://0.0.0.0/" then
    some ⟨"http:", .ipv4 ⟨0, 0, 0, 0⟩, fun _ _ h => by cases h⟩
  else none

/-- The unspecified address is let in. -/
theorem not_egressLaw :
    ¬ EgressLaw parseUnspecified (fun _ => True) "http://0.0.0.0/" := by
  intro h
  have hparse : parseUnspecified "http://0.0.0.0/" =
      some ⟨"http:", .ipv4 ⟨0, 0, 0, 0⟩, fun _ _ h => by cases h⟩ := if_pos rfl
  refine h.guarded _ (assertSafeEgressUrl_eq_ok.2 ⟨hparse, .inl rfl, ?_⟩) (.inr (.inl rfl))
  rw [Admitted, hostText_ipv4]
  decide

end ComputeContract.Market.Egress

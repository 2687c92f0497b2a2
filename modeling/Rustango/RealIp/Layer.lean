import Rustango.RealIp.Addr

/-!
# The trusted address of a client

`RealIpLayer` of `real_ip.rs`: the walk over the hops from the right, and the forwarding values that are
read by the count of the hops it passed.
-/

namespace Rustango.RealIp

open Halves Url Utf8

inductive HeaderStrategy
  | forwardedRfc7239
  | xForwardedFor
  | xRealIp
  | cfConnectingIp
  | auto
deriving DecidableEq

structure RealIpLayer where
  strategy : HeaderStrategy
  trustedProxies : Option (List CidrRange)

/-- The lines of each header, in their order. -/
abbrev Headers := String → List Bytes

/-- What the middleware leaves with a request for its handlers. -/
structure Extensions where
  trustedPeer : Bool := false
  trustedRealIp : Option IpAddr := none
  trustedHops : Option Nat := none

def comma : UInt8 := 0x2C

/-- `HeaderValue::to_str` takes visible ASCII and tabs. -/
def isVisible (b : UInt8) : Bool := 0x20 ≤ b.toNat && b.toNat < 0x7F || b = 0x09

def toStr (line : Bytes) : Option Text := if line.all isVisible then some (asChars line) else none

namespace RealIpLayer

def trusts (layer : RealIpLayer) (ip : IpAddr) : Bool :=
  match layer.trustedProxies with
  | none => false
  | some nets => nets.any fun net => net.contains ip

/-- Every comma-separated hop of every line, in order, each decoded alone. -/
def headerHops (lines : List Bytes) : List (Option Text) :=
  lines.flatMap fun line => (line.splitOn comma).map fromUtf8

/-- The hops from the right: the first untrusted one, with the number walked past. -/
def walk (layer : RealIpLayer) (length walked : Nat) (rightmost : Option IpAddr) :
    List (Option IpAddr) → Option (IpAddr × Nat)
  | [] => rightmost.map fun ip => (ip, length - 1)
  | none :: _ => none
  | some ip :: hops =>
    if layer.trusts ip then walk layer length (walked + 1) (rightmost.or (some ip)) hops else some (ip, walked)

/-- The header that a strategy walks, and how its hops are read. -/
def walked : HeaderStrategy → Option (String × (Text → Option IpAddr))
  | .xForwardedFor => some ("x-forwarded-for", parseIpWithOptionalPort)
  | .auto => some ("x-forwarded-for", parseIpWithOptionalPort)
  | .forwardedRfc7239 => some ("forwarded", rfc7239For)
  | .xRealIp => none
  | .cfConnectingIp => none

def chain (parse : Text → Option IpAddr) (lines : List Bytes) : List (Option IpAddr) :=
  (headerHops lines).map fun hop => hop.bind parse

/-- The single value of a header that is taken as sent. -/
def extractOne (headers : Headers) (name : String) : Option IpAddr :=
  ((headers name).head?.bind toStr).bind parseIpWithOptionalPort

def resolveTrustedHops (layer : RealIpLayer) (headers : Headers) : Option (IpAddr × Nat) :=
  match walked layer.strategy with
  | some (name, parse) =>
    if headers name = [] then none
    else
      let hops := chain parse (headers name)
      layer.walk hops.length 0 none hops.reverse
  | none =>
    (extractOne headers (if layer.strategy = .xRealIp then "x-real-ip" else "cf-connecting-ip")).map fun ip => (ip, 0)

/-- What the middleware inserts for a peer; the bare claim is left out. -/
def realIp (layer : RealIpLayer) (peer : Option IpAddr) (headers : Headers) : Extensions :=
  let trustedPeer := match peer with
    | none => false
    | some p => layer.trusts p
  match if trustedPeer then layer.resolveTrustedHops headers else none with
  | none => { trustedPeer := trustedPeer }
  | some (ip, hops) => { trustedPeer := trustedPeer, trustedRealIp := some ip, trustedHops := some hops }

end RealIpLayer

/-- The value of a forwarding header set by the outermost trusted proxy. -/
def trustedForwarded (headers : Headers) (extensions : Extensions) (name : String) : Option Text :=
  match extensions.trustedRealIp with
  | none => none
  | some _ =>
    match (headers name).mapM toStr with
    | none => none
    | some lines =>
      let values := lines.flatMap fun line => (line.splitOn ',').map trim
      if values = [] then none
      else (values[values.length - 1 - extensions.trustedHops.getD 0]?).filter (· ≠ [])

namespace RealIpLayer
variable (layer : RealIpLayer)

theorem walk_trusted (length walked : Nat) (rightmost : Option IpAddr) (right : List (Option IpAddr))
    (hright : ∀ hop ∈ right, ∃ a, hop = some a ∧ layer.trusts a = true) (ip : IpAddr)
    (hip : layer.trusts ip = false) (left : List (Option IpAddr)) :
    layer.walk length walked rightmost (right ++ some ip :: left) = some (ip, walked + right.length) := by
  induction right generalizing walked rightmost with
  | nil =>
    rw [List.nil_append, walk, hip]
    rfl
  | cons hop right ih =>
    obtain ⟨a, rfl, ha⟩ := hright hop List.mem_cons_self
    rw [List.cons_append, walk, if_pos ha, ih _ _ fun hop hhop => hright hop (List.mem_cons_of_mem _ hhop),
      List.length_cons]
    congr 2
    omega

/-- A chain ends in an untrusted hop and trusted ones. -/
structure EndsIn (ip : IpAddr) (left right : List (Option IpAddr)) (hops : List (Option IpAddr)) : Prop where
  split : hops = left ++ some ip :: right
  untrusted : layer.trusts ip = false
  trusted : ∀ hop ∈ right, ∃ a, hop = some a ∧ layer.trusts a = true

theorem resolveTrustedHops_eq (headers : Headers) (name : String) (parse : Text → Option IpAddr)
    (hwalked : walked layer.strategy = some (name, parse)) (ip : IpAddr) (left right : List (Option IpAddr))
    (h : layer.EndsIn ip left right (chain parse (headers name))) :
    layer.resolveTrustedHops headers = some (ip, right.length) := by
  have hlines : headers name ≠ [] := by
    intro hnil
    have hsplit := h.split
    rw [hnil] at hsplit
    simp [chain, headerHops] at hsplit
  unfold resolveTrustedHops
  rw [hwalked]
  simp only [if_neg hlines]
  rw [h.split, List.reverse_append, List.reverse_cons, List.append_assoc, List.singleton_append,
    walk_trusted layer _ 0 none right.reverse _ ip h.untrusted]
  · simp
  · intro hop hhop
    exact h.trusted hop (List.mem_reverse.1 hhop)

theorem chain_cons (parse : Text → Option IpAddr) (line : Bytes) (lines : List Bytes) :
    chain parse (line :: lines) =
      ((line.splitOn comma).map fun hop => (fromUtf8 hop).bind parse) ++ chain parse lines := by
  simp [chain, headerHops]

theorem chain_append (parse : Text → Option IpAddr) (lines more : List Bytes) :
    chain parse (lines ++ more) = chain parse lines ++ chain parse more := by
  simp [chain, headerHops]

/-- What may stand before a hop in its line: nothing, or bytes up to a comma. -/
def Before (front : Bytes) : Prop := front = [] ∨ ∃ hops, front = hops ++ [comma]

theorem chain_before (parse : Text → Option IpAddr) (before : List Bytes) (front tail : Bytes) (after : List Bytes)
    (hfront : Before front) : ∃ left, chain parse (before ++ (front ++ tail) :: after) =
      left ++ chain parse (tail :: after) := by
  rcases hfront with rfl | ⟨hops, rfl⟩
  · exact ⟨chain parse before, by rw [chain_append, List.nil_append]⟩
  · refine ⟨chain parse before ++ (hops.splitOn comma).map fun hop => (fromUtf8 hop).bind parse, ?_⟩
    rw [chain_append, chain_cons, chain_cons, List.append_assoc hops, List.singleton_append,
      List.splitOn_append_cons_self, List.map_append]
    simp only [List.append_assoc]

/-- A hop of the pieces of a line begins a tail of the line. -/
theorem tail_of_pieces (pieces : List Bytes) (hpieces : ∀ p ∈ pieces, comma ∉ p) (left right : List Bytes)
    (hop : Bytes) (hsplit : pieces = left ++ hop :: right) :
    ∃ front tail, [comma].intercalate pieces = front ++ tail ∧ Before front ∧
      tail.splitOn comma = hop :: right := by
  have hright : ∀ p ∈ hop :: right, comma ∉ p := by
    intro p hp
    apply hpieces
    rw [hsplit]
    exact List.mem_append_right _ hp
  have htail := List.splitOn_intercalate comma hright (List.cons_ne_nil _ _)
  cases left with
  | nil => exact ⟨[], [comma].intercalate (hop :: right), by rw [hsplit]; rfl, Or.inl rfl, htail⟩
  | cons p left =>
    refine ⟨[comma].intercalate (p :: left) ++ [comma], [comma].intercalate (hop :: right), ?_,
      Or.inr ⟨_, rfl⟩, htail⟩
    rw [hsplit]
    clear hsplit hpieces
    induction left generalizing p with
    | nil => simp
    | cons q left ih =>
      have hrest := ih q
      simp only [List.cons_append, List.intercalate_cons_cons] at hrest ⊢
      rw [hrest]
      simp only [List.append_assoc]

/-- Every hop of a chain begins a tail of its line. -/
theorem exists_tail (parse : Text → Option IpAddr) (lines : List Bytes) (left right : List (Option IpAddr))
    (hop : Option IpAddr) (hsplit : chain parse lines = left ++ hop :: right) :
    ∃ before front tail after, lines = before ++ (front ++ tail) :: after ∧ Before front ∧
      chain parse (tail :: after) = hop :: right := by
  induction lines generalizing left with
  | nil => simp [chain, headerHops] at hsplit
  | cons line lines ih =>
    rw [chain_cons] at hsplit
    rcases List.append_eq_append_iff.1 hsplit with ⟨more, hleft, hlines⟩ | ⟨more, hpieces, hlines⟩
    · obtain ⟨before, front, tail, after, hwhole, hfront, htail⟩ := ih more hlines
      exact ⟨line :: before, front, tail, after, by rw [hwhole]; rfl, hfront, htail⟩
    · cases more with
      | nil =>
        rw [List.nil_append] at hlines
        obtain ⟨before, front, tail, after, hwhole, hfront, htail⟩ := ih [] hlines.symm
        exact ⟨line :: before, front, tail, after, by rw [hwhole]; rfl, hfront, htail⟩
      | cons first more =>
        rw [List.cons_append, List.cons.injEq] at hlines
        rw [← hlines.1] at hpieces
        obtain ⟨rawLeft, rawRest, hraw, hrawLeft, hrawRest⟩ := List.map_eq_append_iff.1 hpieces
        obtain ⟨rawHop, rawRight, hcons, hhop, hrawRight⟩ := List.map_eq_cons_iff.1 hrawRest
        rw [hcons] at hraw
        have hno := not_mem_of_mem_splitOn comma line
        obtain ⟨front, tail, hwhole, hfront, htail⟩ := tail_of_pieces _ hno rawLeft rawRight rawHop hraw
        rw [List.intercalate_splitOn] at hwhole
        refine ⟨[], front, tail, lines, by rw [hwhole]; rfl, hfront, ?_⟩
        rw [chain_cons, htail, List.map_cons, hhop, hrawRight, hlines.2]
        rfl

/-- What the outermost proxy's value reads as. -/
def readValue (value : Bytes) : Text := trim (asChars value)

theorem isAscii_of_isVisible (b : UInt8) (h : isVisible b = true) : isAscii b = true := by
  simp only [isVisible, Bool.or_eq_true, Bool.and_eq_true, decide_eq_true_eq] at h
  rcases h with h | rfl
  · simp [isAscii]
    omega
  · decide

theorem splitOn_asChars (line : Bytes) (h : ∀ b ∈ line, isVisible b = true) :
    (asChars line).splitOn ',' = (line.splitOn comma).map asChars := by
  apply splitOn_map (fun b : UInt8 => Char.ofNat b.toNat) comma line
  intro b hb heq
  have hbytes := encodeChar_ofNat b (isAscii_of_isVisible b (h b hb))
  have hchar : Char.ofNat b.toNat = Char.ofNat comma.toNat := heq
  rw [hchar, encodeChar_ofNat comma (by decide)] at hbytes
  exact (List.singleton_inj.1 hbytes).symm

theorem mapM_toStr (lines : List Bytes) (h : ∀ line ∈ lines, line.all isVisible = true) :
    lines.mapM toStr = some (lines.map asChars) := by
  induction lines with
  | nil => rfl
  | cons line lines ih =>
    have hrest := ih fun l hl => h l (List.mem_cons_of_mem _ hl)
    rw [List.mapM_cons, toStr, if_pos (h line List.mem_cons_self), hrest]
    rfl

theorem mapM_toStr_none (lines : List Bytes) (line : Bytes) (hline : line ∈ lines)
    (h : line.all isVisible = false) : lines.mapM toStr = none := by
  induction lines with
  | nil => cases hline
  | cons first lines ih =>
    rw [List.mapM_cons]
    rcases List.mem_cons.1 hline with rfl | hline
    · rw [toStr, h]
      rfl
    · rw [ih hline]
      cases toStr first <;> rfl

theorem values_eq (lines : List Bytes) (h : ∀ line ∈ lines, line.all isVisible = true) :
    ((lines.map asChars).flatMap fun line => (line.splitOn ',').map trim) =
      (lines.flatMap fun line => line.splitOn comma).map readValue := by
  induction lines with
  | nil => rfl
  | cons line lines ih =>
    have hrest := ih fun l hl => h l (List.mem_cons_of_mem _ hl)
    have hline : ∀ b ∈ line, isVisible b = true := List.all_eq_true.1 (h line List.mem_cons_self)
    rw [List.map_cons, List.flatMap_cons, hrest, List.flatMap_cons, List.map_append, splitOn_asChars line hline,
      List.map_map]
    rfl

/-- The value of the outermost trusted proxy is read where every line is visible and the value is not blank. -/
theorem trustedForwarded_iff (headers : Headers) (extensions : Extensions) (name : String) (ip : IpAddr)
    (hreal : extensions.trustedRealIp = some ip) (client inner : List Bytes) (value : Bytes)
    (hhops : extensions.trustedHops = some inner.length)
    (hvalues : (headers name).flatMap (fun line => line.splitOn comma) = client ++ value :: inner) :
    trustedForwarded headers extensions name = some (readValue value) ↔
      (∀ line ∈ headers name, line.all isVisible = true) ∧ readValue value ≠ [] := by
  unfold trustedForwarded
  rw [hreal]
  by_cases hvisible : ∀ line ∈ headers name, line.all isVisible = true
  · have hsome : (client ++ value :: inner).map readValue ≠ [] := by simp
    have hindex : ((client ++ value :: inner).map readValue)[((client ++ value :: inner).map readValue).length - 1 -
        inner.length]? = some (readValue value) := by
      have hat : ((client ++ value :: inner).map readValue).length - 1 - inner.length = client.length := by
        simp only [List.length_map, List.length_append, List.length_cons]
        omega
      rw [hat]
      simp
    simp only [mapM_toStr _ hvisible, values_eq _ hvisible, hvalues, if_neg hsome, hhops, Option.getD_some, hindex]
    by_cases hblank : readValue value = []
    · simp [hblank, Option.filter]
    · have hfilter : (some (readValue value)).filter (· ≠ []) = some (readValue value) := by
        simp [Option.filter, hblank]
      rw [hfilter]
      exact iff_of_true rfl ⟨hvisible, hblank⟩
  · have hnone : (headers name).mapM toStr = none := by
      simp only [not_forall] at hvisible
      obtain ⟨line, hline, hno⟩ := hvisible
      exact mapM_toStr_none _ line hline (by simpa using hno)
    rw [hnone]
    constructor
    · intro h
      cases h
    · intro h
      exact absurd h.1 hvisible

/-- The trusted address is the rightmost untrusted hop, whatever stands before it, and the outermost proxy's
value of a forwarding header is read. -/
structure ClientCannotChoose (headers : Headers) (peer : IpAddr) (forwarded : String) (value : Bytes)
    (walkedName : String) (parse : Text → Option IpAddr) (ip : IpAddr) (right : List (Option IpAddr)) : Prop where
  resolved : layer.resolveTrustedHops headers = some (ip, right.length)
  unchanged : ∃ before front tail after, headers walkedName = before ++ (front ++ tail) :: after ∧ Before front ∧
    chain parse (tail :: after) = some ip :: right ∧
    ∀ (before' : List Bytes) (front' : Bytes) (headers' : Headers), Before front' →
      headers' walkedName = before' ++ (front' ++ tail) :: after →
        layer.resolveTrustedHops headers' = layer.resolveTrustedHops headers
  value : trustedForwarded headers (layer.realIp (some peer) headers) forwarded = some (readValue value)

/-- A client cannot choose its trusted address; the value of a forwarding header it can make unreadable, by a
line that is not visible ASCII. -/
theorem client_cannot_choose_iff (headers : Headers) (peer : IpAddr) (hpeer : layer.trusts peer = true)
    (walkedName : String) (parse : Text → Option IpAddr) (hwalked : walked layer.strategy = some (walkedName, parse))
    (ip : IpAddr) (left right : List (Option IpAddr))
    (hchain : layer.EndsIn ip left right (chain parse (headers walkedName)))
    (forwarded : String) (client inner : List Bytes) (value : Bytes) (hinner : inner.length = right.length)
    (hvalues : (headers forwarded).flatMap (fun line => line.splitOn comma) = client ++ value :: inner) :
    layer.ClientCannotChoose headers peer forwarded value walkedName parse ip right ↔
      (∀ line ∈ headers forwarded, line.all isVisible = true) ∧ readValue value ≠ [] := by
  have hresolved := layer.resolveTrustedHops_eq headers walkedName parse hwalked ip left right hchain
  have hextensions : layer.realIp (some peer) headers =
      { trustedPeer := true, trustedRealIp := some ip, trustedHops := some inner.length } := by
    simp [realIp, hpeer, hresolved, hinner]
  have hforwarded := trustedForwarded_iff headers (layer.realIp (some peer) headers) forwarded ip
    (by rw [hextensions]) client inner value (by rw [hextensions]) hvalues
  constructor
  · intro h
    exact hforwarded.1 h.value
  · intro h
    obtain ⟨before, front, tail, after, hwhole, hfront, htail⟩ := exists_tail parse _ left right _ hchain.split
    refine ⟨hresolved, ⟨before, front, tail, after, hwhole, hfront, htail, ?_⟩, hforwarded.2 h⟩
    intro before' front' headers' hfront' hheaders'
    obtain ⟨left', hleft'⟩ := chain_before parse before' front' tail after hfront'
    have hends : layer.EndsIn ip left' right (chain parse (headers' walkedName)) := by
      refine ⟨?_, hchain.untrusted, hchain.trusted⟩
      rw [hheaders', hleft', htail]
    rw [hresolved]
    exact layer.resolveTrustedHops_eq headers' walkedName parse hwalked ip left' right hends

end RealIpLayer

private def line (s : String) : Bytes := encode s.toList

private def proxyLayer : RealIpLayer := ⟨.auto, some [.v4 0x0A000000 0xFF000000]⟩

private def proxied (hosts : List Bytes) : Headers := fun name =>
  if name = "x-forwarded-for" then [line "9.9.9.9", line "203.0.113.7, 10.0.0.1"]
  else if name = "x-forwarded-host" then hosts else []

private theorem proxied_ends (hosts : List Bytes) : proxyLayer.EndsIn (.v4 0xCB007107) [some (.v4 0x09090909)]
    [some (.v4 0x0A000001)] (RealIpLayer.chain parseIpWithOptionalPort (proxied hosts "x-forwarded-for")) := by
  have hlines : proxied hosts "x-forwarded-for" = [line "9.9.9.9", line "203.0.113.7, 10.0.0.1"] := rfl
  rw [hlines]
  refine ⟨by decide, by decide, ?_⟩
  intro hop hhop
  rw [List.mem_singleton.1 hhop]
  exact ⟨_, rfl, by decide⟩

theorem client_cannot_choose_behind_proxies :
    proxyLayer.ClientCannotChoose (proxied [line "evil.test, app.test, inner.test"]) (.v4 0x0A000002)
        "x-forwarded-host" (line " app.test") "x-forwarded-for" parseIpWithOptionalPort (.v4 0xCB007107)
        [some (.v4 0x0A000001)] ↔
      (∀ l ∈ proxied [line "evil.test, app.test, inner.test"] "x-forwarded-host", l.all isVisible = true) ∧
        RealIpLayer.readValue (line " app.test") ≠ [] :=
  proxyLayer.client_cannot_choose_iff _ _ (by decide) _ _ rfl _ _ _ (proxied_ends _) _ [line "evil.test"]
    [line " inner.test"] _ rfl (by decide)

/-- A byte that is not ASCII, sent by the client, hides the value that the proxies added. -/
theorem client_hides_forwarded_value : ¬ ∀ (layer : RealIpLayer) (headers : Headers) (peer : IpAddr)
    (walkedName : String) (parse : Text → Option IpAddr) (ip : IpAddr) (left right : List (Option IpAddr))
    (forwarded : String) (client inner : List Bytes) (value : Bytes),
    layer.trusts peer = true → RealIpLayer.walked layer.strategy = some (walkedName, parse) →
    layer.EndsIn ip left right (RealIpLayer.chain parse (headers walkedName)) → inner.length = right.length →
    (headers forwarded).flatMap (fun line => line.splitOn comma) = client ++ value :: inner →
      layer.ClientCannotChoose headers peer forwarded value walkedName parse ip right := by
  intro h
  have hvalue := (h proxyLayer (proxied [[0xFF], line "app.test, inner.test"]) (.v4 0x0A000002) _ _ _ _ _
    "x-forwarded-host" [[0xFF]] [line " inner.test"] (line "app.test") (by decide) rfl (proxied_ends _) rfl
    (by decide)).value
  revert hvalue
  decide

end Rustango.RealIp

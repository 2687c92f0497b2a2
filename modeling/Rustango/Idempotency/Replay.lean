import Rustango.Idempotency.Handle

/-!
# Stored responses

What `handle` stores of a response and what `rebuild` makes of it again. The `http`, `base64` and
`serde_json` crates are parameters, with what their documentation says of them.
-/

namespace Rustango.Idempotency

/-- Status, headers and body of a stored response. -/
structure Encoded where
  status : UInt16
  headers : List (String × String)
  bodyB64 : String
deriving DecidableEq, Repr

/-- The types and functions of other crates. `iter` yields one line per value. -/
structure Crates where
  Status : Type
  asU16 : Status → UInt16
  statusFrom : UInt16 → Option Status
  ok : Status
  Name : Type
  decEqName : DecidableEq Name
  asStr : Name → String
  nameFrom : String → Option Name
  nameStatic : String → Name
  Value : Type
  bytes : Value → List UInt8
  toStr : Value → Option String
  valueFrom : String → Option Value
  valueStatic : String → Value
  HeaderMap : Type
  empty : HeaderMap
  iter : HeaderMap → List (Name × Value)
  append : HeaderMap → Name → Value → HeaderMap
  insert : HeaderMap → Name → Value → HeaderMap
  encode : List UInt8 → String
  decode : String → Option (List UInt8)
  Json : Type
  toJson : StoredResponse Encoded → Json
  fromJson : Json → Option (StoredResponse Encoded)

structure Response (c : Crates) where
  status : c.Status
  headers : c.HeaderMap
  body : List UInt8

namespace Crates
variable (c : Crates)

instance : DecidableEq c.Name := c.decEqName

/-- The values of one name. -/
def getAll (m : c.HeaderMap) (name : c.Name) : List c.Value :=
  (c.iter m).filterMap fun line => if line.1 = name then some line.2 else none

/-- `idempotent-replayed`. -/
def marker : c.Name := c.nameStatic "idempotent-replayed"

/-- Framing and hop-by-hop headers: they describe the original connection, not the replay. -/
def isHopByHop (name : c.Name) : Bool :=
  ["content-length", "transfer-encoding", "connection", "proxy-authenticate",
    "proxy-authorization", "te", "trailer", "upgrade", "keep-alive"].contains (c.asStr name)

/-- A byte that `HeaderValue::to_str` takes. -/
def visibleAscii (b : UInt8) : Bool := (32 ≤ b && b < 127) || b = 9

/-- What the documentation of the crates says. -/
structure Lawful : Prop where
  status_from : ∀ s, c.statusFrom (c.asU16 s) = some s
  name_from : ∀ n, c.nameFrom (c.asStr n) = some n
  name_static : c.asStr c.marker = "idempotent-replayed"
  to_str : ∀ v, (c.toStr v).isSome = (c.bytes v).all visibleAscii
  value_from : ∀ v s, c.toStr v = some s → c.valueFrom s = some v
  iter_empty : c.iter c.empty = []
  getAll_append : ∀ m n v k, c.getAll (c.append m n v) k =
    c.getAll m k ++ if n = k then [v] else []
  getAll_insert : ∀ m n v k, c.getAll (c.insert m n v) k = if n = k then [v] else c.getAll m k
  decode : ∀ bytes, c.decode (c.encode bytes) = some bytes
  json : ∀ s, c.fromJson (c.toJson s) = some s

/-- What the handler's response is stored as, if it is stored. -/
def store (cacheStatus : c.Status → Bool) (requestSha256 : String) (resp : Response c) :
    Option c.Json :=
  let setsCookie := (c.iter resp.headers).any fun line => c.asStr line.1 = "set-cookie"
  if cacheStatus resp.status && !setsCookie then
    some (c.toJson
      { requestSha256
        response :=
          { status := c.asU16 resp.status
            headers := ((c.iter resp.headers).filter fun line => !c.isHopByHop line.1).filterMap
              fun line => (c.toStr line.2).map fun s => (c.asStr line.1, s)
            bodyB64 := c.encode resp.body } })
  else none

/-- Adds one stored header, unless it is no header or describes the connection. -/
def restore (headers : c.HeaderMap) (line : String × String) : c.HeaderMap :=
  match c.nameFrom line.1, c.valueFrom line.2 with
  | some name, some value => if c.isHopByHop name then headers else c.append headers name value
  | _, _ => headers

def rebuild (stored : Encoded) : Response c where
  status := (c.statusFrom stored.status).getD c.ok
  headers := c.insert (stored.headers.foldl c.restore c.empty) c.marker (c.valueStatic "true")
  body := (c.decode stored.bodyB64).getD []

/-- A stored answer read again. -/
def replayOf (raw : c.Json) : Option (Response c) :=
  (c.fromJson raw).map fun stored => c.rebuild stored.response

/-- The same response without the framing and hop-by-hop headers, and with the marker. -/
structure Replays (resp again : Response c) : Prop where
  status : again.status = resp.status
  body : again.body = resp.body
  headers : ∀ name, c.getAll again.headers name =
    (if c.isHopByHop name then [] else c.getAll resp.headers name) ++
      if name = c.marker then [c.valueStatic "true"] else []

variable {c}

theorem Lawful.marker_ends (hc : c.Lawful) : c.isHopByHop c.marker = false := by
  rw [isHopByHop, hc.name_static]
  decide

theorem Lawful.restore_eq (hc : c.Lawful) {name : c.Name} {v : c.Value} {s : String}
    (hs : c.toStr v = some s) (hname : c.isHopByHop name = false) (m : c.HeaderMap) :
    c.restore m (c.asStr name, s) = c.append m name v := by
  simp [restore, hc.name_from, hc.value_from v s hs, hname]

/-- Of each name, the values in visible ASCII come back, in order. -/
theorem Lawful.getAll_restore (hc : c.Lawful) (lines : List (c.Name × c.Value)) (m : c.HeaderMap)
    (k : c.Name) :
    c.getAll (((lines.filter fun line => !c.isHopByHop line.1).filterMap fun line =>
        (c.toStr line.2).map fun s => (c.asStr line.1, s)).foldl c.restore m) k =
      c.getAll m k ++ if c.isHopByHop k then [] else
        (lines.filterMap fun line => if line.1 = k then some line.2 else none).filter fun v =>
          (c.toStr v).isSome := by
  induction lines generalizing m with
  | nil => simp
  | cons line lines ih =>
    obtain ⟨name, v⟩ := line
    by_cases hhop : c.isHopByHop name = true
    · have hskip := ih m
      by_cases hk : name = k
      · subst hk
        simpa [hhop] using hskip
      · simpa [hhop, hk] using hskip
    · rw [Bool.not_eq_true] at hhop
      cases hs : c.toStr v with
      | none =>
        have hskip := ih m
        by_cases hk : name = k
        · subst hk
          simpa [hhop, hs] using hskip
        · simpa [hhop, hs, hk] using hskip
      | some s =>
        have hnext := ih (c.append m name v)
        rw [hc.getAll_append] at hnext
        by_cases hk : name = k
        · subst hk
          simpa [hhop, hs, hc.restore_eq hs hhop] using hnext
        · simpa [hhop, hs, hk, hc.restore_eq hs hhop] using hnext

theorem store_eq_some {cacheStatus : c.Status → Bool} {sha : String} {resp : Response c}
    {raw : c.Json} (h : c.store cacheStatus sha resp = some raw) :
    raw = c.toJson ⟨sha, c.asU16 resp.status,
      ((c.iter resp.headers).filter fun line => !c.isHopByHop line.1).filterMap
        fun line => (c.toStr line.2).map fun s => (c.asStr line.1, s), c.encode resp.body⟩ := by
  rw [store] at h
  split at h
  · exact (Option.some.inj h).symm
  · cases h

theorem Lawful.replayOf_eq (hc : c.Lawful) {cacheStatus : c.Status → Bool} {sha : String}
    {resp : Response c} {raw : c.Json} (h : c.store cacheStatus sha resp = some raw) :
    ∃ again, c.replayOf raw = some again ∧ again.status = resp.status ∧ again.body = resp.body ∧
      ∀ k, c.getAll again.headers k = if c.marker = k then [c.valueStatic "true"] else
        if c.isHopByHop k then [] else
          (c.getAll resp.headers k).filter fun v => (c.toStr v).isSome := by
  rw [store_eq_some h, replayOf, hc.json]
  refine ⟨_, rfl, ?_, ?_, fun k => ?_⟩
  · simp [rebuild, hc.status_from]
  · simp [rebuild, hc.decode]
  · have hempty : c.getAll c.empty k = [] := by
      simp [getAll, hc.iter_empty]
    have hrestored := hc.getAll_restore (c.iter resp.headers) c.empty k
    rw [hempty, List.nil_append] at hrestored
    simp only [rebuild, hc.getAll_insert, hrestored]
    rfl

/-- A stored response is replayed as it was if and only if its lasting headers are visible ASCII and
it carries no marker of its own. -/
theorem replay_original_iff (hc : c.Lawful) {cacheStatus : c.Status → Bool} {sha : String}
    {resp : Response c} {raw : c.Json} (h : c.store cacheStatus sha resp = some raw) :
    (∃ again, c.replayOf raw = some again ∧ c.Replays resp again) ↔
      (∀ line ∈ c.iter resp.headers, c.isHopByHop line.1 = false →
        (c.bytes line.2).all visibleAscii = true) ∧ c.getAll resp.headers c.marker = [] := by
  obtain ⟨again, hagain, hstatus, hbody, hheaders⟩ := hc.replayOf_eq h
  constructor
  · rintro ⟨again', hagain', hreplays⟩
    have hsame : again' = again := Option.some.inj (hagain'.symm.trans hagain)
    subst hsame
    have hmarker : c.getAll resp.headers c.marker = [] := by
      have hline := hreplays.headers c.marker
      rw [hheaders, if_pos rfl, if_pos rfl, hc.marker_ends] at hline
      simpa using hline
    refine ⟨fun line hline hlasting => ?_, hmarker⟩
    have hvalue : line.2 ∈ c.getAll resp.headers line.1 :=
      List.mem_filterMap.mpr ⟨line, hline, by simp⟩
    have hname : c.marker ≠ line.1 := by
      intro heq
      rw [← heq, hmarker] at hvalue
      cases hvalue
    have hkept := hreplays.headers line.1
    rw [hheaders, if_neg hname, if_neg (Ne.symm hname), hlasting] at hkept
    have hall : (c.getAll resp.headers line.1).filter (fun v => (c.toStr v).isSome) =
        c.getAll resp.headers line.1 := by
      simpa using hkept
    rw [← hc.to_str]
    exact List.filter_eq_self.mp hall line.2 hvalue
  · intro ⟨hvisible, hmarker⟩
    refine ⟨again, hagain, hstatus, hbody, fun k => ?_⟩
    rw [hheaders]
    by_cases hk : c.marker = k
    · rw [if_pos hk, if_pos hk.symm, ← hk, hmarker]
      simp
    · rw [if_neg hk, if_neg (Ne.symm hk), List.append_nil]
      cases hhop : c.isHopByHop k with
      | true => rfl
      | false =>
        have hall : ∀ v ∈ c.getAll resp.headers k, (c.toStr v).isSome = true := by
          intro v hv
          obtain ⟨line, hline, heq⟩ := List.mem_filterMap.mp hv
          split at heq
          · rename_i hname
            rw [hc.to_str, ← Option.some.inj heq]
            exact hvisible line hline (hname ▸ hhop)
          · cases heq
        simpa using List.filter_eq_self.mpr hall

private def asciiText (bytes : List UInt8) : String := String.ofList (bytes.map fun b => Char.ofNat b.toNat)

private def textBytes (s : String) : List UInt8 := s.toList.map fun c => c.toNat.toUInt8

private theorem textBytes_asciiText (bytes : List UInt8) : textBytes (asciiText bytes) = bytes := by
  have hbyte : ∀ b : UInt8, UInt8.ofNat (Char.ofNat b.toNat).toNat = b := by
    intro b
    have hb := b.toNat_lt
    have hvalid : b.toNat.isValidChar := Or.inl (by omega)
    have hchar : (Char.ofNat b.toNat).toNat = b.toNat := by
      rw [Char.ofNat, dif_pos hvalid]
      rfl
    rw [hchar]
    simp
  simp [textBytes, asciiText, Function.comp_def, hbyte]

private def valuesOf (m : List (String × List UInt8)) (k : String) : List (List UInt8) :=
  m.filterMap fun line => if line.1 = k then some line.2 else none

private theorem valuesOf_append (m : List (String × List UInt8)) (name : String) (v : List UInt8)
    (k : String) :
    valuesOf (m ++ [(name, v)]) k = valuesOf m k ++ if name = k then [v] else [] := by
  rw [valuesOf, List.filterMap_append]
  by_cases h : name = k <;> simp [h, valuesOf]

private theorem valuesOf_insert (m : List (String × List UInt8)) (name : String) (v : List UInt8)
    (k : String) :
    valuesOf (m.filter (fun line => line.1 ≠ name) ++ [(name, v)]) k =
      if name = k then [v] else valuesOf m k := by
  rw [valuesOf_append]
  by_cases h : name = k
  · subst h
    simp [valuesOf]
  · have hkept : valuesOf (m.filter fun line => line.1 ≠ name) k = valuesOf m k := by
      induction m with
      | nil => rfl
      | cons line m ih =>
        by_cases hk : line.1 = k
        · have hne : line.1 ≠ name := fun heq => h (heq.symm.trans hk)
          simpa [valuesOf, hk, hne, Ne.symm h] using ih
        · by_cases hname : line.1 = name
          · simpa [valuesOf, hk, hname, h] using ih
          · simpa [valuesOf, hk, hname] using ih
    rw [if_neg h, if_neg h, hkept, List.append_nil]

/-- Crates over plain lists; an empty body is the empty text in any base. -/
private def listCrates : Crates where
  Status := UInt16
  asU16 := id
  statusFrom := some
  ok := 200
  Name := String
  decEqName := inferInstance
  asStr := id
  nameFrom := some
  nameStatic := id
  Value := List UInt8
  bytes := id
  toStr v := if v.all visibleAscii then some (asciiText v) else none
  valueFrom s := some (textBytes s)
  valueStatic := textBytes
  HeaderMap := List (String × List UInt8)
  empty := []
  iter := id
  append m name v := m ++ [(name, v)]
  insert m name v := m.filter (fun line => line.1 ≠ name) ++ [(name, v)]
  encode := asciiText
  decode s := some (textBytes s)
  Json := StoredResponse Encoded
  toJson := id
  fromJson := some

private theorem listCrates_lawful : listCrates.Lawful where
  status_from _ := rfl
  name_from _ := rfl
  name_static := rfl
  to_str v := by
    change (if v.all visibleAscii then some (asciiText v) else none).isSome = v.all visibleAscii
    cases v.all visibleAscii <;> rfl
  value_from v s h := by
    change (if v.all visibleAscii then some (asciiText v) else none) = some s at h
    split at h
    · rw [← Option.some.inj h]
      exact congrArg some (textBytes_asciiText v)
    · cases h
  iter_empty := rfl
  getAll_append := valuesOf_append
  getAll_insert := valuesOf_insert
  decode bytes := congrArg some (textBytes_asciiText bytes)
  json _ := rfl

/-- A download with the given file name. -/
private def download (disposition : List UInt8) : Response listCrates where
  status := (200 : UInt16)
  headers := [("content-type", textBytes "text/csv"), ("content-disposition", disposition),
    ("connection", textBytes "close")]
  body := []

/-- An ASCII file name. -/
theorem replay_original_ascii : ∃ raw again,
    listCrates.store (fun _ => true) "" (download (textBytes "attachment; filename=a.csv")) = some raw ∧
      listCrates.replayOf raw = some again ∧
      listCrates.Replays (download (textBytes "attachment; filename=a.csv")) again := by
  have hstored : listCrates.store (fun _ => true) "" (download (textBytes "attachment; filename=a.csv")) =
      some _ := rfl
  have hreplayed := (replay_original_iff listCrates_lawful hstored).mpr (by decide)
  exact ⟨_, hreplayed.choose, hstored, hreplayed.choose_spec⟩

/-- A file name with the byte `E9`, an `é` in Latin-1: the header is in no replay. -/
theorem replay_original_latin : ∃ raw again,
    listCrates.store (fun _ => true) "" (download (textBytes "attachment; filename=" ++ [0xE9])) =
        some raw ∧
      listCrates.replayOf raw = some again ∧
      listCrates.getAll again.headers "content-disposition" = [] ∧
      ¬ listCrates.Replays (download (textBytes "attachment; filename=" ++ [0xE9])) again := by
  refine ⟨_, _, rfl, rfl, by decide, fun hreplays => ?_⟩
  have hlines := congrArg List.length (hreplays.headers "content-disposition")
  revert hlines
  decide

end Crates

end Rustango.Idempotency

import Rustango.HmacAuth.Request

/-!
# What a signature pins

The signed text has one line for each part of a request, so that it tells two requests apart up to the case of the
method and the order of the query. A client that signs what it sends passes, and its signature passes for nothing else.
-/

namespace Rustango.HmacAuth

open Rustango.Halves (splitOnce splitOnce_append)
open Rustango.RealIp (isWhitespace trim trimMatches toStr)
open Rustango.Url (Text)
open Rustango.Utf8 (Bytes)

private theorem newline_not_mem_upper {t : Text} (h : '\n' ∉ t) : '\n' ∉ t.map Totp.toAsciiUppercase := by
  intro hmem
  obtain ⟨c, hc, hup⟩ := List.mem_map.mp hmem
  rw [Totp.toAsciiUppercase] at hup
  split at hup
  case isTrue hlower =>
    have hnat := congrArg Char.toNat hup
    have hbounds : 97 ≤ c.toNat ∧ c.toNat ≤ 122 := by
      simpa [Char.isLower, UInt32.le_iff_toNat_le] using hlower
    rw [Char.toNat_ofNat] at hnat
    have hten : ('\n' : Char).toNat = 10 := rfl
    split at hnat <;> omega
  case isFalse => exact h (hup ▸ hc)

/-- A header name, or the pseudo-header of the port. -/
def Named (name : Text) : Prop := name = portLine ∨ name ≠ [] ∧ ':' ∉ name

structure Plain (c : Covered) : Prop where
  method : '\n' ∉ c.method
  host : '\n' ∉ c.host.getD []
  path : '\n' ∉ c.path
  query : '\n' ∉ c.query
  date : '\n' ∉ c.date
  bodyHash : '\n' ∉ c.bodyHash
  extras : ∀ e ∈ c.extras, Named e.1 ∧ '\n' ∉ e.1 ∧ '\n' ∉ e.2

def pairs (q : Text) : List Text := (q.splitOn '&').filter (· ≠ [])

def extraLine (e : Text × Text) : Text := e.1 ++ ':' :: e.2

def lines (c : Covered) : List Text :=
  [c.method.map Totp.toAsciiUppercase, c.host.getD [], c.path, sortQuery c.query, c.date, c.bodyHash] ++
    c.extras.map extraLine

private theorem intercalate_cons_flatMap (sep t : Text) (ts : List Text) :
    sep.intercalate (t :: ts) = t ++ ts.flatMap (sep ++ ·) := by
  induction ts generalizing t with
  | nil => simp
  | cons u us ih => rw [List.intercalate_cons_cons, ih, List.flatMap_cons, List.append_assoc, List.append_assoc]

private theorem canonicalRequest_eq_lines (c : Covered) :
    canonicalRequest c = ['\n'].intercalate (lines c) := by
  rw [lines, List.cons_append, intercalate_cons_flatMap]
  simp [canonicalRequest, extraLine, List.flatMap_map]

private theorem sortQuery_eq (q : Text) :
    sortQuery q = ['&'].intercalate ((pairs q).insertionSort (· ≤ ·)) := rfl

private theorem mem_of_mem_intercalate {sep : Text} {ts : List Text} {c : Char} (h : c ∈ sep.intercalate ts) :
    c ∈ sep ∨ ∃ t ∈ ts, c ∈ t := by
  cases ts with
  | nil => cases h
  | cons t ts =>
    rw [intercalate_cons_flatMap, List.mem_append, List.mem_flatMap] at h
    rcases h with h | ⟨u, hu, h⟩
    · exact .inr ⟨t, List.mem_cons_self, h⟩
    · rcases List.mem_append.mp h with h | h
      · exact .inl h
      · exact .inr ⟨u, List.mem_cons_of_mem _ hu, h⟩

private theorem mem_of_mem_pairs {q t : Text} {c : Char} (ht : t ∈ pairs q) (h : c ∈ t) : c ∈ q := by
  have hpiece : t ∈ q.splitOn '&' := (List.mem_filter.mp ht).1
  have hjoin : ['&'].intercalate (q.splitOn '&') = q := List.intercalate_splitOn '&'
  rw [← hjoin]
  generalize q.splitOn '&' = ts at hpiece
  cases ts with
  | nil => cases hpiece
  | cons u us =>
    rw [intercalate_cons_flatMap, List.mem_append, List.mem_flatMap]
    rcases List.mem_cons.mp hpiece with rfl | hin
    · exact .inl h
    · exact .inr ⟨t, hin, List.mem_append_right _ h⟩

private theorem newline_not_mem_sortQuery {q : Text} (h : '\n' ∉ q) : '\n' ∉ sortQuery q := by
  intro hmem
  rcases mem_of_mem_intercalate hmem with hsep | ⟨t, ht, hc⟩
  · exact absurd hsep (by decide)
  · exact h (mem_of_mem_pairs (q := q) ((List.mem_insertionSort _).mp ht) hc)

theorem Plain.lines {c : Covered} (h : Plain c) : ∀ l ∈ lines c, '\n' ∉ l := by
  intro l hl
  rcases List.mem_append.mp hl with hl | hl
  · simp only [List.mem_cons, List.not_mem_nil, or_false] at hl
    rcases hl with rfl | rfl | rfl | rfl | rfl | rfl
    · exact newline_not_mem_upper h.method
    · exact h.host
    · exact h.path
    · exact newline_not_mem_sortQuery h.query
    · exact h.date
    · exact h.bodyHash
  · obtain ⟨e, he, rfl⟩ := List.mem_map.mp hl
    have hparts := (h.extras e he).2
    simp [extraLine, hparts.1, hparts.2]

private theorem not_mem_of_mem_splitOn (sep : Char) (q : Text) : ∀ t ∈ q.splitOn sep, sep ∉ t := by
  induction q with
  | nil => simp
  | cons c q ih =>
    intro t ht
    rw [List.splitOn_cons_eq_if_modifyHead] at ht
    split at ht
    · rcases List.mem_cons.mp ht with rfl | ht
      · exact List.not_mem_nil
      · exact ih t ht
    · next hc =>
      generalize q.splitOn sep = ts at ih ht
      cases ts with
      | nil => cases ht
      | cons u us =>
        rcases List.mem_cons.mp ht with rfl | ht
        · intro hmem
          rcases List.mem_cons.mp hmem with heq | hmem
          · exact hc (by simp [heq])
          · exact ih u List.mem_cons_self hmem
        · exact ih t (List.mem_cons_of_mem _ ht)

private theorem not_mem_of_mem_pairs {q t : Text} (ht : t ∈ pairs q) : '&' ∉ t :=
  not_mem_of_mem_splitOn '&' q t (List.mem_filter.mp ht).1

private theorem perm_of_sortQuery {q r : Text} (h : sortQuery q = sortQuery r) : (pairs q).Perm (pairs r) := by
  have hread : ∀ q, ((sortQuery q).splitOn '&').filter (· ≠ []) = (pairs q).insertionSort (· ≤ ·) := by
    intro q
    by_cases hnil : (pairs q).insertionSort (· ≤ ·) = []
    · rw [sortQuery_eq, hnil]
      rfl
    · have hpieces : ∀ t ∈ (pairs q).insertionSort (· ≤ ·), '&' ∉ t := fun t ht =>
        not_mem_of_mem_pairs ((List.mem_insertionSort _).mp ht)
      rw [sortQuery_eq, List.splitOn_intercalate '&' hpieces hnil, List.filter_eq_self]
      intro t ht
      exact (List.mem_filter.mp ((List.mem_insertionSort _).mp ht)).2
  have hsorted := (hread q).symm.trans ((congrArg (fun t => (t.splitOn '&').filter (· ≠ [])) h).trans (hread r))
  have hperm := List.perm_insertionSort (· ≤ ·) (pairs q)
  rw [hsorted] at hperm
  exact hperm.symm.trans (List.perm_insertionSort _ _)

private theorem extraLine_inj {e f : Text × Text} (he : Named e.1) (hf : Named f.1)
    (h : extraLine e = extraLine f) :
    e = f := by
  -- Only the line of the port starts with a colon.
  have hport : ∀ {name value v : Text}, name ≠ [] → ':' ∉ name → name ++ ':' :: value ≠ portLine ++ ':' :: v := by
    intro name value v hne hcolon heq
    cases name with
    | nil => exact hne rfl
    | cons c name =>
      have hc : c = ':' := (List.cons.inj heq).1
      exact hcolon (hc ▸ List.mem_cons_self)
  obtain ⟨name, value⟩ := e
  obtain ⟨name', value'⟩ := f
  simp only [extraLine] at h
  rcases he with he | ⟨hne, hcolon⟩ <;> rcases hf with hf | ⟨hne', hcolon'⟩
  · dsimp only at he hf
    subst he
    subst hf
    have hvalue := List.append_cancel_left h
    rw [(List.cons.inj hvalue).2]
  · dsimp only at he
    subst he
    exact absurd h.symm (hport hne' hcolon')
  · dsimp only at hf
    subst hf
    exact absurd h (hport hne hcolon)
  · have hread := (splitOnce_append ':' name value hcolon).symm.trans ((congrArg (splitOnce ':') h).trans
      (splitOnce_append ':' name' value' hcolon'))
    exact Option.some.inj hread

private theorem map_extraLine_inj : ∀ {es fs : SignedExtras}, (∀ e ∈ es, Named e.1) → (∀ f ∈ fs, Named f.1) →
    es.map extraLine = fs.map extraLine → es = fs
  | [], [], _, _, _ => rfl
  | [], _ :: _, _, _, h => by cases h
  | _ :: _, [], _, _, h => by cases h
  | e :: es, f :: fs, he, hf, h => by
    have hhead := extraLine_inj (he e List.mem_cons_self) (hf f List.mem_cons_self) (List.cons.inj h).1
    have htail := map_extraLine_inj (fun e hin => he e (List.mem_cons_of_mem _ hin))
      (fun f hin => hf f (List.mem_cons_of_mem _ hin)) (List.cons.inj h).2
    rw [hhead, htail]

/-- The same request up to the case of the method and the order of the query. -/
structure Agree (c d : Covered) : Prop where
  method : c.method.map Totp.toAsciiUppercase = d.method.map Totp.toAsciiUppercase
  host : c.host.getD [] = d.host.getD []
  path : c.path = d.path
  query : (pairs c.query).Perm (pairs d.query)
  date : c.date = d.date
  bodyHash : c.bodyHash = d.bodyHash
  extras : c.extras = d.extras

private theorem agree_of_canonicalRequest {c d : Covered} (hc : Plain c) (hd : Plain d)
    (h : canonicalRequest c = canonicalRequest d) : Agree c d := by
  have hread : ∀ {c}, Plain c → (canonicalRequest c).splitOn '\n' = lines c := by
    intro c hc
    rw [canonicalRequest_eq_lines]
    exact List.splitOn_intercalate '\n' hc.lines (by simp [lines])
  have hlines : lines c = lines d := by
    rw [← hread hc, h]
    exact hread hd
  simp only [lines, List.cons_append, List.nil_append, List.cons.injEq] at hlines
  obtain ⟨hmethod, hhost, hpath, hquery, hdate, hbody, hextras⟩ := hlines
  exact ⟨hmethod, hhost, hpath, perm_of_sortQuery hquery, hdate, hbody,
    map_extraLine_inj (fun e he => (hc.extras e he).1) (fun e he => (hd.extras e he).1) hextras⟩

namespace SignedExtras
variable {a b name value : Text} {es : SignedExtras}

theorem put_comm_of_lt (hab : a < b) (v w : Text) : (es.put a v).put b w = (es.put b w).put a v := by
  induction es with
  | nil => simp [put, hab, hab.asymm, hab.ne']
  | cons e es ih =>
    rcases lt_trichotomy a e.1 with hae | hae | hae
    · rcases lt_trichotomy b e.1 with hbe | hbe | hbe
      · simp [put, hab, hab.asymm, hab.ne', hae, hbe]
      · simp [put, hab, hab.asymm, hab.ne', ← hbe]
      · simp [put, hab.asymm, hab.ne', hae, hbe.asymm, hbe.ne']
    · simp [put, ← hae, hab.asymm, hab.ne']
    · have hbe := hae.trans hab
      simp [put, hae.asymm, hae.ne', hbe.asymm, hbe.ne', ih]

theorem put_comm (hne : a ≠ b) (v w : Text) : (es.put a v).put b w = (es.put b w).put a v := by
  rcases lt_or_gt_of_ne hne with hab | hba
  · exact put_comm_of_lt hab v w
  · exact (put_comm_of_lt hba w v).symm

theorem put_forall {p : Text × Text → Prop} (hnew : p (name, value)) (h : ∀ e ∈ es, p e) :
    ∀ e ∈ es.put name value, p e := by
  induction es with
  | nil => simpa [put] using hnew
  | cons f es ih =>
    have htail := ih fun e he => h e (List.mem_cons_of_mem _ he)
    rw [put]
    split
    · exact List.forall_mem_cons.mpr ⟨hnew, h⟩
    · split
      · exact List.forall_mem_cons.mpr ⟨hnew, fun e he => h e (List.mem_cons_of_mem _ he)⟩
      · exact List.forall_mem_cons.mpr ⟨h f List.mem_cons_self, htail⟩

theorem insert_perm {named named' : List (Text × Text)} (hperm : named.Perm named')
    (hdistinct : (named.map fun e => e.1.map toAsciiLowercase).Nodup) :
    named.foldl (fun es e => es.insert e.1 e.2) es = named'.foldl (fun es e => es.insert e.1 e.2) es := by
  apply hperm.foldl_eq'
  intro e he f hf es
  by_cases hef : e = f
  · rw [hef]
  · apply put_comm
    intro hname
    exact hef (List.inj_on_of_nodup_map hdistinct he hf hname)

end SignedExtras

section Layer
variable {x : Crates} {cfg : HmacAuthConfig x} {req : Request} {date : Text}

/-- What the layer adds to the signed text of a request. -/
def listed (cfg : HmacAuthConfig x) (req : Request) : List (Text × Text) :=
  cfg.signedHeaders.map (fun h => (h.name.toList, ((header req h.name).getD none).getD [])) ++
    if cfg.signPort then [(portLine, portText x req)] else []

private theorem listed_distinct : ((listed cfg req).map fun e => e.1.map toAsciiLowercase).Nodup := by
  have hnames : (cfg.signedHeaders.map fun h => h.name.toList).Nodup := by
    apply cfg.distinct.map
    intro h h' heq
    have hname : h.name = h'.name := String.toList_inj.mp heq
    cases h
    cases h'
    cases hname
    rfl
  have hlower : (cfg.signedHeaders.map fun h => h.name.toList.map toAsciiLowercase) =
      cfg.signedHeaders.map fun h => h.name.toList := List.map_congr_left fun h _ => h.lower
  have hport : portLine.map toAsciiLowercase = portLine := by decide
  rw [listed, List.map_append, List.map_map]
  simp only [Function.comp_def, hlower]
  split
  · rw [List.map_singleton, hport]
    apply List.nodup_append.mpr
    refine ⟨hnames, List.nodup_singleton _, ?_⟩
    intro name hname port hp heq
    obtain ⟨h, hh, rfl⟩ := List.mem_map.mp hname
    rw [List.mem_singleton.mp hp] at heq
    exact h.plain.2.1 (heq ▸ (by decide : ':' ∈ portLine))
  · simpa using hnames

private theorem foldlM_addExtra (names : List HeaderName) (hread : ∀ h ∈ names, header req h.name ≠ some none)
    (es : SignedExtras) : names.foldlM (addExtra req) es = .ok ((names.map fun h =>
      (h.name.toList, ((header req h.name).getD none).getD [])).foldl (fun es e => es.insert e.1 e.2) es) := by
  induction names generalizing es with
  | nil => rfl
  | cons h names ih =>
    have hone : addExtra req es h = .ok (es.insert h.name.toList (((header req h.name).getD none).getD [])) := by
      have hh := hread h List.mem_cons_self
      rw [addExtra]
      cases hv : header req h.name with
      | none => rfl
      | some v => cases v with
        | none => exact absurd hv hh
        | some v => rfl
    rw [List.foldlM_cons, hone]
    exact ih (fun h hh => hread h (List.mem_cons_of_mem _ hh)) _

private theorem foldlM_addExtra_unread (names : List HeaderName)
    (hread : ¬ ∀ h ∈ names, header req h.name ≠ some none)
    (es : SignedExtras) : ∃ e, names.foldlM (addExtra req) es = .error e := by
  induction names generalizing es with
  | nil => exact absurd (by simp) hread
  | cons h names ih =>
    rw [List.foldlM_cons]
    cases hone : addExtra req es h with
    | error e => exact ⟨e, rfl⟩
    | ok es' =>
      refine ih (fun hrest => hread fun h' hh' => ?_) es'
      rcases List.mem_cons.mp hh' with rfl | hh'
      · intro hnone
        rw [addExtra, hnone] at hone
        cases hone
      · exact hrest h' hh'

private theorem signedExtras_ok_iff {es : SignedExtras} : signedExtras x cfg req = .ok es ↔
    (∀ h ∈ cfg.signedHeaders, header req h.name ≠ some none) ∧
      es = (listed cfg req).foldl (fun (es : SignedExtras) e => es.insert e.1 e.2) [] := by
  by_cases hread : ∀ h ∈ cfg.signedHeaders, header req h.name ≠ some none
  · have hlisted : signedExtras x cfg req =
        .ok ((listed cfg req).foldl (fun (es : SignedExtras) e => es.insert e.1 e.2) []) := by
      rw [signedExtras, foldlM_addExtra _ hread, listed, List.foldl_append]
      cases cfg.signPort <;> rfl
    rw [hlisted]
    exact ⟨fun h => ⟨hread, (Except.ok.inj h).symm⟩, fun h => congrArg _ h.2.symm⟩
  · obtain ⟨e, he⟩ := foldlM_addExtra_unread cfg.signedHeaders hread []
    rw [signedExtras, he]
    exact iff_of_false nofun fun h => hread h.1

private theorem coveredBy_ok_iff {c : Covered} :
    coveredBy x cfg req date = .ok c ↔ ∃ h es, signedHost x cfg req = .ok h ∧
    signedExtras x cfg req = .ok es ∧
    c = ⟨req.method, some h, req.path, req.query.getD [], date, x.sha256Hex req.body, es⟩ := by
  rw [coveredBy]
  cases hh : signedHost x cfg req with
  | error msg => simp [bind, Except.bind]
  | ok h => cases hes : signedExtras x cfg req with
    | error msg => simp [bind, Except.bind]
    | ok es => simp [bind, Except.bind, pure, Except.pure, eq_comm]

private theorem checkRequest_ok_iff {now : Option Int} {passed : Text × Bytes} :
    checkRequest x cfg now req = .ok passed ↔ ∃ date auth parsed secret c, header req headerDate = some (some date) ∧
      dateWithinTolerance x date cfg.toleranceSecs now = true ∧ header req headerAuth = some (some auth) ∧
      parseAuth auth = some parsed ∧ cfg.resolver parsed.keyId = some secret ∧
      coveredBy x cfg req date = .ok c ∧ req.body.length ≤ cfg.bodyLimit ∧
      signature x secret c = parsed.signature ∧ passed = (date, parsed.signature) := by
  constructor
  · intro h
    rw [checkRequest] at h
    split at h
    · cases h
    next date hdate =>
    split at h
    · cases h
    next htol =>
    split at h
    · cases h
    next auth hauth =>
    split at h
    · cases h
    next parsed hparsed =>
    split at h
    · cases h
    next secret hsecret =>
    split at h
    · cases h
    next c hc =>
    split at h
    · cases h
    next hbody =>
    split at h
    · cases h
    next hsig =>
    have hhead : ∀ {v : Option (Option Text)} {t : Text}, v.getD none = some t → v = some (some t) := by
      intro v t hv
      cases v with
      | none => cases hv
      | some v => exact congrArg some hv
    exact ⟨date, auth, parsed, secret, c, hhead hdate, by simpa using htol, hhead hauth, hparsed, hsecret, hc,
      Nat.le_of_not_lt hbody, not_not.mp hsig, (Except.ok.inj h).symm⟩
  · rintro ⟨date, auth, parsed, secret, c, hdate, htol, hauth, hparsed, hsecret, hc, hbody, hsig, rfl⟩
    simp [checkRequest, hdate, htol, hauth, hparsed, hsecret, hc, Nat.not_lt.mpr hbody, hsig]

private theorem newline_not_mem_toStr {line : Bytes} {t : Text} (h : toStr line = some t) : '\n' ∉ t := by
  rw [toStr] at h
  split at h
  case isTrue hvisible =>
    cases h
    intro hmem
    obtain ⟨b, hb, hten⟩ := List.mem_map.mp hmem
    have hb' := List.all_eq_true.mp hvisible b hb
    have hnat := congrArg Char.toNat hten
    rw [Char.toNat_ofNat, if_pos (Or.inl (by have := b.toNat_lt; omega))] at hnat
    have hnl : ('\n' : Char).toNat = 10 := rfl
    rw [hnl] at hnat
    have hbyte : b = 10 := UInt8.toNat_inj.mp hnat
    rw [hbyte] at hb'
    exact absurd hb' (by decide)
  case isFalse => cases h

private theorem newline_not_mem_header {name : String} {t : Text} (h : header req name = some (some t)) :
    '\n' ∉ t := by
  rw [header] at h
  cases hv : (req.headers name).head? with
  | none => simp [hv] at h
  | some line => exact newline_not_mem_toStr (by simpa [hv] using h)

private theorem newline_not_mem_lower {t : Text} (h : '\n' ∉ t) : '\n' ∉ t.map toAsciiLowercase := by
  intro hmem
  obtain ⟨c, hc, hlow⟩ := List.mem_map.mp hmem
  rw [toAsciiLowercase] at hlow
  split at hlow
  case isTrue hupper =>
    have hnat := congrArg Char.toNat hlow
    have hbounds : 65 ≤ c.toNat ∧ c.toNat ≤ 90 := by
      simpa [Char.isUpper, UInt32.le_iff_toNat_le] using hupper
    rw [Char.toNat_ofNat] at hnat
    have hten : ('\n' : Char).toNat = 10 := rfl
    split at hnat <;> omega
  case isFalse => exact h (hlow ▸ hc)

private theorem parseHost_plain {raw h : Text} (hp : parseHost x raw = some h) : '\n' ∉ h ∧ h ≠ [] := by
  have hip : ∀ {t ip : Text}, x.ipv6 t = some ip → '\n' ∉ '[' :: ip ++ [']'] := by
    intro t ip hip
    simp [x.line_ipv6 t ip hip]
  rw [parseHost] at hp
  cases hv6 : x.ipv6 (trim raw) with
  | some ip =>
    rw [hv6] at hp
    cases hp
    exact ⟨hip hv6, by simp⟩
  | none =>
    rw [hv6] at hp
    obtain ⟨authority, ha, hp⟩ := Option.bind_eq_some_iff.mp hp
    have hline := x.line_authority _ _ ha
    split at hp
    · cases hp
    split at hp
    · obtain ⟨ip, hv6, rfl⟩ := Option.map_eq_some_iff.mp hp
      exact ⟨hip hv6, by simp⟩
    · have hhost : '\n' ∉
          (if authority.host.getLast? = some '.' then authority.host.dropLast else authority.host) := by
        split
        · exact fun hmem => hline (List.dropLast_subset _ hmem)
        · exact hline
      generalize (if authority.host.getLast? = some '.' then authority.host.dropLast else authority.host) = host
        at hp hhost
      dsimp only at hp
      split at hp
      · cases hp
      next hne =>
        cases hp
        exact ⟨newline_not_mem_lower hhost, by simpa using hne⟩

private theorem mem_of_mem_trim {t : Text} {c : Char} (h : c ∈ trim t) : c ∈ t :=
  (List.dropWhile_sublist _).subset ((List.rdropWhile_prefix _ _).subset h)

/-- The host that a request names: its `Host` header and its target, those it has, spell one. -/
structure NamesHost (x : Crates) (req : Request) (h : Text) : Prop where
  inHeader : ∀ v, header req "host" = some v → v.bind (parseHost x) = some h
  inTarget : ∀ a, req.uriAuthority = some a → parseHost x a = some h
  named : header req "host" ≠ none ∨ req.uriAuthority ≠ none

private theorem requestHost_ok_iff {h : Text} : requestHost x req = .ok h ↔ NamesHost x req h := by
  rw [requestHost]
  constructor
  · intro hh
    cases hv : header req "host" with
    | none =>
      rw [hv] at hh
      cases ha : req.uriAuthority with
      | none => simp [ha] at hh
      | some a => cases hp : parseHost x a with
        | none => simp [ha, hp] at hh
        | some t =>
          simp only [ha, hp, Except.ok.injEq] at hh
          exact ⟨by simp [hv], by simp [ha, hp, hh], by simp [ha]⟩
    | some v => cases hp : v.bind (parseHost x) with
      | none => simp [hv, hp] at hh
      | some t =>
        rw [hv] at hh
        cases ha : req.uriAuthority with
        | none =>
          simp only [hp, ha, Except.ok.injEq] at hh
          exact ⟨by simp [hv, hp, hh], by simp [ha], by simp [hv]⟩
        | some a => cases hq : parseHost x a with
          | none => simp [hp, ha, hq] at hh
          | some u =>
            simp only [hp, ha, hq] at hh
            split at hh
            · cases hh
            · rename_i hsame
              obtain rfl := Except.ok.inj hh
              exact ⟨by simp [hv, hp], by simp [ha, hq, not_not.mp hsame], by simp [hv]⟩
  · intro hnames
    cases hv : header req "host" with
    | none => cases ha : req.uriAuthority with
      | none => exact absurd hnames.named (by simp [hv, ha])
      | some a => simp [hnames.inTarget a ha]
    | some v => cases ha : req.uriAuthority with
      | none => simp [hnames.inHeader v hv]
      | some a => simp [hnames.inHeader v hv, hnames.inTarget a ha]

theorem NamesHost.parsed {h : Text} (hh : NamesHost x req h) : ∃ raw, parseHost x raw = some h := by
  cases ha : req.uriAuthority with
  | some a => exact ⟨a, hh.inTarget a ha⟩
  | none => cases hv : header req "host" with
    | none => exact absurd hh.named (by simp [hv, ha])
    | some v =>
      obtain ⟨raw, -, hraw⟩ := Option.bind_eq_some_iff.mp (hh.inHeader v hv)
      exact ⟨raw, hraw⟩

/-- The host that the layer signs for a request. -/
def SignsHost (cfg : HmacAuthConfig x) (req : Request) (h : Text) : Prop :=
  match cfg.host with
  | some pinned => pinned.text = h
  | none => NamesHost x req h

private theorem signedHost_ok_iff {h : Text} : signedHost x cfg req = .ok h ↔ SignsHost cfg req h := by
  rw [signedHost, SignsHost]
  cases cfg.host with
  | some pinned => simp
  | none => exact requestHost_ok_iff

private theorem signedHost_parsed {h : Text} (hh : signedHost x cfg req = .ok h) :
    ∃ raw, parseHost x raw = some h := by
  rw [signedHost] at hh
  split at hh
  · next pinned _ =>
    cases hh
    exact pinned.parsed
  · exact (requestHost_ok_iff.mp hh).parsed

private theorem signedHost_plain {h : Text} (hh : signedHost x cfg req = .ok h) : '\n' ∉ h ∧ h ≠ [] := by
  obtain ⟨raw, hraw⟩ := signedHost_parsed hh
  exact parseHost_plain hraw

private theorem newline_not_mem_portText : '\n' ∉ portText x req := by
  rw [portText]
  cases requestPort x req with
  | none => exact List.not_mem_nil
  | some p =>
    intro hmem
    have hmem' : '\n' ∈ Nat.toDigits 10 p := by simpa [Nat.toList_repr] using hmem
    have hdigit := Nat.isDigit_of_mem_toDigits (by decide) (by decide) hmem'
    exact absurd hdigit (by decide)

/-- A line that the signed text may add. -/
def PlainExtra (e : Text × Text) : Prop := Named e.1 ∧ '\n' ∉ e.1 ∧ '\n' ∉ e.2

private theorem plain_insert {es : SignedExtras} (hes : ∀ e ∈ es, PlainExtra e) (h : HeaderName) {value : Text}
    (hvalue : '\n' ∉ value) : ∀ e ∈ es.insert h.name.toList value, PlainExtra e := by
  apply SignedExtras.put_forall _ hes
  rw [h.lower]
  exact ⟨.inr ⟨h.plain.1, h.plain.2.1⟩, h.plain.2.2, fun hmem => hvalue (mem_of_mem_trim hmem)⟩

private theorem plain_foldlM (names : List HeaderName) {es es' : SignedExtras} (hes : ∀ e ∈ es, PlainExtra e)
    (h : names.foldlM (addExtra req) es = .ok es') : ∀ e ∈ es', PlainExtra e := by
  induction names generalizing es with
  | nil =>
    cases h
    exact hes
  | cons name names ih =>
    rw [List.foldlM_cons] at h
    cases hone : addExtra req es name with
    | error msg =>
      rw [hone] at h
      cases h
    | ok es₁ =>
      rw [hone] at h
      apply ih _ h
      rw [addExtra] at hone
      split at hone
      · next v hv =>
        cases hone
        exact plain_insert hes name (newline_not_mem_header hv)
      · cases hone
      · cases hone
        exact plain_insert hes name List.not_mem_nil

private theorem plain_signedExtras {es : SignedExtras} (h : signedExtras x cfg req = .ok es) :
    ∀ e ∈ es, PlainExtra e := by
  rw [signedExtras] at h
  cases hes : cfg.signedHeaders.foldlM (addExtra req) [] with
  | error msg =>
    rw [hes] at h
    cases h
  | ok es₀ =>
    rw [hes] at h
    have hplain := plain_foldlM cfg.signedHeaders (fun e he => absurd he List.not_mem_nil) hes
    simp only [bind, Except.bind, pure, Except.pure, Except.ok.injEq] at h
    subst h
    split
    · apply SignedExtras.put_forall _ hplain
      have hname : portLine.map toAsciiLowercase = portLine := by decide
      rw [hname]
      exact ⟨.inl rfl, (by decide : '\n' ∉ portLine), fun hmem => newline_not_mem_portText (mem_of_mem_trim hmem)⟩
    · exact hplain

private theorem plain_coveredBy {c : Covered} (hdate : header req headerDate = some (some date))
    (hc : coveredBy x cfg req date = .ok c) : Plain c := by
  obtain ⟨h, es, hh, hes, rfl⟩ := coveredBy_ok_iff.mp hc
  exact ⟨req.line.1, (signedHost_plain hh).1, req.line.2.1, req.line.2.2, newline_not_mem_header hdate,
    x.line_sha256Hex req.body, plain_signedExtras hes⟩

private theorem canonicalRequest_of_agree {c d : Covered} (h : Agree c d) :
    canonicalRequest c = canonicalRequest d := by
  have hquery : sortQuery c.query = sortQuery d.query := by
    have hperm := ((List.perm_insertionSort (· ≤ ·) (pairs c.query)).trans h.query).trans
      (List.perm_insertionSort (· ≤ ·) (pairs d.query)).symm
    exact congrArg (['&'].intercalate ·)
      (hperm.eq_of_pairwise' (List.pairwise_insertionSort _ _) (List.pairwise_insertionSort _ _))
  rw [canonicalRequest, canonicalRequest, h.method, h.host, h.path, hquery, h.date, h.bodyHash, h.extras]

/-- `req` carries what `r` signs. -/
structure SameRequest (cfg : HmacAuthConfig x) (r : RequestToSign) (req : Request) : Prop where
  method : r.method.map Totp.toAsciiUppercase = req.method.map Totp.toAsciiUppercase
  host : ∃ h, parseHost x r.host = some h ∧ SignsHost cfg req h
  path : r.path = req.path
  query : (pairs r.query).Perm (pairs (req.query.getD []))
  date : header req headerDate = some (some r.date)
  body : r.body = req.body
  readable : ∀ h ∈ cfg.signedHeaders, header req h.name ≠ some none
  extras : r.extras = (listed cfg req).foldl (fun (es : SignedExtras) e => es.insert e.1 e.2) []

private theorem passes_of_same {r : RequestToSign} {keyId : Text} {secret : Bytes} {now : Option Int}
    (hkey : cfg.resolver keyId = some secret) (hfits : KeyIdFits keyId)
    (hauth : header req headerAuth = some (some (r.authorization x keyId secret))) (hsame : SameRequest cfg r req)
    (hdate : dateWithinTolerance x r.date cfg.toleranceSecs now = true) (hbody : req.body.length ≤ cfg.bodyLimit) :
    checkRequest x cfg now req = .ok (r.date, signature x secret (r.covered x)) := by
  obtain ⟨h, hparsed, hhost⟩ := hsame.host
  have hc : coveredBy x cfg req r.date = .ok _ := coveredBy_ok_iff.mpr ⟨h, r.extras,
    signedHost_ok_iff.mpr hhost, signedExtras_ok_iff.mpr ⟨hsame.readable, hsame.extras⟩, rfl⟩
  have hagree : Agree ⟨req.method, some h, req.path, req.query.getD [], r.date, x.sha256Hex req.body, r.extras⟩
      (r.covered x) :=
    ⟨hsame.method.symm, (congrArg (Option.getD · []) hparsed).symm, hsame.path.symm, hsame.query.symm, rfl,
      congrArg x.sha256Hex hsame.body.symm, rfl⟩
  have hsig := congrArg (fun t => x.hmac secret (Utf8.encode t)) (canonicalRequest_of_agree hagree)
  exact checkRequest_ok_iff.mpr ⟨r.date, _, _, secret, _, hsame.date, hdate, hauth,
    parseAuth_authorization r hfits secret, hkey, hc, hbody, hsig, rfl⟩

/-- The header of a signed request lets that request pass, and no other one. -/
theorem request_passes_iff_signed {r : RequestToSign} {keyId : Text} {secret : Bytes} {now : Option Int}
    (hkey : cfg.resolver keyId = some secret) (hfits : KeyIdFits keyId) (hline : Plain (r.covered x))
    (hauth : header req headerAuth = some (some (r.authorization x keyId secret)))
    (hmac_apart : ∀ date c, coveredBy x cfg req date = .ok c →
      signature x secret (r.covered x) = signature x secret c →
        canonicalRequest (r.covered x) = canonicalRequest c)
    (sha256_apart : x.sha256Hex r.body = x.sha256Hex req.body → r.body = req.body) :
    (∃ passed, checkRequest x cfg now req = .ok passed) ↔
      SameRequest cfg r req ∧ dateWithinTolerance x r.date cfg.toleranceSecs now = true ∧
        req.body.length ≤ cfg.bodyLimit := by
  constructor
  · rintro ⟨passed, hpassed⟩
    obtain ⟨date, auth, parsed, secret', c, hdate, htol, hauth', hparsed, hsecret, hc, hbody, hsig, -⟩ :=
      checkRequest_ok_iff.mp hpassed
    rw [hauth] at hauth'
    cases hauth'
    rw [parseAuth_authorization r hfits] at hparsed
    cases hparsed
    rw [hkey] at hsecret
    cases hsecret
    have hagree := agree_of_canonicalRequest hline (plain_coveredBy hdate hc) (hmac_apart date c hc hsig.symm)
    obtain ⟨h, es, hhost, hextras, rfl⟩ := coveredBy_ok_iff.mp hc
    have hdated : r.date = date := hagree.date
    subst hdated
    have hsame : (parseHost x r.host).getD [] = h := hagree.host
    have hnamed : parseHost x r.host = some h := by
      cases hp : parseHost x r.host with
      | none =>
        rw [hp] at hsame
        exact absurd hsame.symm (signedHost_plain hhost).2
      | some h' =>
        rw [hp] at hsame
        exact congrArg some hsame
    obtain ⟨hreadable, hlisted⟩ := signedExtras_ok_iff.mp hextras
    exact ⟨⟨hagree.method, ⟨h, hnamed, signedHost_ok_iff.mp hhost⟩, hagree.path, hagree.query, hdate,
      sha256_apart hagree.bodyHash, hreadable, hagree.extras.trans hlisted⟩, htol, hbody⟩
  · rintro ⟨hsame, htol, hbody⟩
    exact ⟨_, passes_of_same hkey hfits hauth hsame htol hbody⟩

/-- A client that signs `named`, one call of `header` or `port` for each. -/
def RequestToSign.headers (r : RequestToSign) (named : List (Text × Text)) : RequestToSign :=
  named.foldl (fun r e => r.header e.1 e.2) r

private theorem headers_eq (r : RequestToSign) (named : List (Text × Text)) :
    r.headers named = { r with extras := named.foldl (fun es e => es.insert e.1 e.2) r.extras } := by
  induction named generalizing r with
  | nil => rfl
  | cons e named ih => exact ih (r.header e.1 e.2)

/-- A client that signs what it sends passes, in whatever order it names the listed headers. -/
theorem signed_request_passes (host : Text) (named : List (Text × Text)) {keyId date : Text} {secret : Bytes}
    {now : Option Int} (hkey : cfg.resolver keyId = some secret) (hfits : KeyIdFits keyId)
    (hhost : ∃ h, parseHost x host = some h ∧ SignsHost cfg req h)
    (hread : ∀ h ∈ cfg.signedHeaders, header req h.name ≠ some none) (hnamed : (listed cfg req).Perm named)
    (hdate : header req headerDate = some (some date))
    (hauth : header req headerAuth = some (some (((RequestToSign.new req.method host req.path (req.query.getD []) date
      req.body).headers named).authorization x keyId secret)))
    (hnow : dateWithinTolerance x date cfg.toleranceSecs now = true) (hbody : req.body.length ≤ cfg.bodyLimit) :
    ∃ sig, checkRequest x cfg now req = .ok (date, sig) := by
  have hextras := @SignedExtras.insert_perm [] _ _ hnamed listed_distinct
  rw [headers_eq] at hauth
  exact ⟨_, passes_of_same hkey hfits hauth ⟨rfl, hhost, rfl, .refl _, hdate, rfl, hread, hextras.symm⟩ hnow hbody⟩

end Layer

section Known

private def knownTag : Bytes := [137, 241, 46, 28, 143, 68, 71, 226, 100, 235, 211, 150, 241, 67, 179, 219, 212, 151, 216, 166,
  35, 144, 0, 214, 53, 216, 127, 189, 157, 213, 168, 3]

private def knownHash : Text := "44136fa355b3678a1146ad16f7e8649e94fb4fc21fe77e8310c060f61caaff8a".toList

private def knownCanonical : Text := "POST\napi.test\n/hooks\na=1&b=2\n2026-05-02T12:34:56Z\n".toList ++ knownHash ++
  "\nx-org:acme".toList

/-- What the crates make of the request below. -/
def knownCrates : Crates where
  ipv6 _ := none
  authority t := if t = "api.test".toList then some ⟨t, none⟩ else none
  rfc3339 t := if t = "2026-05-02T12:34:56Z".toList then some 1777725296 else none
  sha256Hex b := if b = Utf8.encode "\x7b\x7d".toList then knownHash else []
  hmac secret message := if secret = [0x6B] ∧ message = Utf8.encode knownCanonical then knownTag else 0 :: message
  line_ipv6 _ _ h := by cases h
  line_authority t a h := by
    split at h
    · next ht =>
      cases h
      subst ht
      decide
    · cases h
  line_sha256Hex b := by split <;> decide

private def knownHeader : HeaderName := ⟨"x-org", by decide, by decide⟩

def knownLayer : HmacAuthConfig knownCrates :=
  HmacAuthConfig.withSignedHeaders (.new fun keyId => if keyId = ['k', '1'] then some [0x6B] else none)
    [knownHeader, knownHeader]

private def knownSigned : RequestToSign :=
  (RequestToSign.new "POST".toList "api.test".toList "/hooks".toList "b=2&a=1".toList "2026-05-02T12:34:56Z".toList
    (Utf8.encode "\x7b\x7d".toList)).header "X-Org".toList "acme".toList

/-- The signed query, its pairs the other way round. -/
def knownRequest : Request where
  method := "POST".toList
  headers name :=
    if name = "host" then [Utf8.encode "api.test".toList]
    else if name = "x-date" then [Utf8.encode "2026-05-02T12:34:56Z".toList]
    else if name = "authorization" then [Utf8.encode (knownSigned.authorization knownCrates ['k', '1'] [0x6B])]
    else if name = "x-org" then [Utf8.encode "acme".toList]
    else []
  uriAuthority := none
  path := "/hooks".toList
  query := some "a=1&b=2".toList
  body := Utf8.encode "\x7b\x7d".toList
  line := ⟨by decide, by decide, by decide⟩

private theorem knownSigned_apart (c : Covered)
    (h : signature knownCrates [0x6B] (knownSigned.covered knownCrates) = signature knownCrates [0x6B] c) :
    canonicalRequest (knownSigned.covered knownCrates) = canonicalRequest c := by
  have hsigned : canonicalRequest (knownSigned.covered knownCrates) = knownCanonical := by decide
  have htag : signature knownCrates [0x6B] (knownSigned.covered knownCrates) = knownTag := by decide
  rw [htag, signature] at h
  by_cases hc : Utf8.encode (canonicalRequest c) = Utf8.encode knownCanonical
  · exact hsigned.trans (Utf8.encode_injective hc).symm
  · have hother : knownCrates.hmac [0x6B] (Utf8.encode (canonicalRequest c)) = 0 :: Utf8.encode (canonicalRequest c) :=
      if_neg fun hboth => hc hboth.2
    rw [hother] at h
    cases (List.cons.inj h).1

private theorem known_keyIdFits : KeyIdFits ['k', '1'] :=
  ⟨by decide, fun c hc => by cases hc; decide, fun c hc => by cases hc; decide⟩

private theorem knownSigned_plain : Plain (knownSigned.covered knownCrates) := by
  constructor
  case extras =>
    intro e he
    have hextra : e = ("x-org".toList, "acme".toList) := List.mem_singleton.mp he
    rw [hextra]
    exact ⟨.inr ⟨by decide, by decide⟩, by decide, by decide⟩
  all_goals decide

private theorem knownRequest_key : knownLayer.resolver ['k', '1'] = some [0x6B] := rfl

private theorem knownRequest_auth : header knownRequest headerAuth =
    some (some (knownSigned.authorization knownCrates ['k', '1'] [0x6B])) := by decide +kernel

private theorem knownRequest_host : SignsHost knownLayer knownRequest "api.test".toList :=
  requestHost_ok_iff.mp rfl

theorem knownRequest_passes :
    ∃ passed, checkRequest knownCrates knownLayer (some 1777725300) knownRequest = .ok passed :=
  (request_passes_iff_signed knownRequest_key known_keyIdFits knownSigned_plain knownRequest_auth
    (fun _ c _ => knownSigned_apart c) fun _ => rfl).mpr
    ⟨⟨by decide, ⟨"api.test".toList, by decide, knownRequest_host⟩, by decide, by decide, by decide, rfl, by decide,
      rfl⟩, by decide, by decide⟩

theorem known_client_passes : ∃ sig, checkRequest knownCrates knownLayer (some 1777725300) knownRequest =
    .ok ("2026-05-02T12:34:56Z".toList, sig) :=
  signed_request_passes "api.test".toList [("x-org".toList, "acme".toList)] knownRequest_key
    known_keyIdFits ⟨"api.test".toList, by decide, knownRequest_host⟩ (by decide) (by decide)
    (by decide +kernel) (by decide +kernel) (by decide +kernel) (by decide +kernel)

end Known

end Rustango.HmacAuth

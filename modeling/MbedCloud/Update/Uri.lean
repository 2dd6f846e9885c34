import Mathlib.Data.List.Basic
import MbedCloud.Update.Utilities

/-!
# URIs

`arm_uc_str2uri` splits `scheme:[//]host[:port]/path` and copies the parts into the buffer of a URI. Each
search has a bound of its own: one byte behind the colon is skipped without a look at it, the slashes behind
it are skipped before the end of the text is checked, and the colon of a port is looked for in as many bytes
as there are from the path to the end.
-/

namespace MbedCloud.Update.Str2uri

open Lib List

/-! ## Model -/

inductive Scheme where
  | none
  | http
  deriving DecidableEq

/-- `arm_uc_uri_t`: the host and the path are indices into the buffer. -/
structure Uri where
  /-- The buffer, of `size_max` bytes. -/
  ptr : Bytes
  size : Nat
  scheme : Scheme
  port : Nat
  host : Option Nat
  path : Option Nat
  deriving DecidableEq

def colonByte : UInt8 := 58
def slashByte : UInt8 := 47

/-- The text `http:`. -/
def httpColon : Bytes := [104, 116, 116, 112, 58]

/-- Lower case characters have a higher value. -/
def lower (b : UInt8) : UInt8 := if b < 97 then b + 32 else b

def copyScheme (text : Bytes) : Nat → Nat → Bytes → Exec Fault Bytes
  | _, 0, ptr => pure ptr
  | i, n + 1, ptr => do
    let b ← rd text i
    let ptr ← wr ptr i (lower b)
    copyScheme text (i + 1) n ptr

/-- Leading slashes; the byte is read before the end of the text is checked. -/
def skipSlashes (text : Bytes) : Nat → Nat → Exec Fault Nat
  | 0, _ => .error .fuel
  | k + 1, str => do
    let b ← rd text str
    if b = slashByte ∧ str < text.length then skipSlashes text k (str + 1) else pure str

/-- The host from `str` on, and the path from `slash` on, are copied. -/
def copyParts (text : Bytes) (uri : Uri) (str slash len : Nat) : Exec Fault (Bool × Uri) :=
  if len < uri.ptr.length then do
    let host ← rdBytes text str len
    let ptr ← wrBytes uri.ptr 0 host
    let ptr ← wr ptr len 0
    let uri := { uri with ptr := ptr, size := len + 1, host := some 0 }
    let len ← strnlen text slash (sub32 text.length slash)
    if 0 < len ∧ len < sub32 uri.ptr.length uri.size then do
      let path ← rdBytes text slash len
      let ptr ← wrBytes uri.ptr uri.size path
      let ptr ← wr ptr (uri.size + len) 0
      pure (true, { uri with ptr := ptr, path := some uri.size, size := uri.size + (len + 1) })
    else pure (false, uri)
  else pure (false, uri)

/-- The host, the port and the path from `str` on. -/
def copyAuthority (text : Bytes) (uri : Uri) (str : Nat) : Exec Fault (Bool × Uri) := do
  match ← memchr text slashByte str (sub32 text.length str) with
  | none => pure (false, uri)
  | some slash =>
    match ← memchr text colonByte str (sub32 text.length slash) with
    | some colon => do
      let (port, parsed) ← str2uint32 text (colon + 1) (sub32 text.length colon)
      let uri := { uri with port := u16 port }
      if parsed then copyParts text uri str slash (colon - str) else pure (false, uri)
    | none => copyParts text uri str slash (slash - str)

/-- `arm_uc_str2uri` on a text at the address `base`. The null pointer is the address 0: it takes part in a
subtraction if the text has no colon. -/
def str2uri (base : Nat) (text : Bytes) (uri : Uri) : Exec Fault (Bool × Uri) :=
  if text.length < uri.ptr.length then do
    let colon ← memchr text colonByte 0 text.length
    let len := match colon with
      | some c => c
      | none => sub32 0 base
    if len < uri.ptr.length then do
      let ptr ← copyScheme text 0 len uri.ptr
      let b ← rd text len
      let ptr ← wr ptr len b
      let uri := { uri with ptr := ptr }
      if ← memcmp uri.ptr 0 httpColon then
        match colon with
        | some c => do
          let str ← skipSlashes text (text.length + 1) (c + 2)
          copyAuthority text { uri with scheme := .http, port := 80 } str
        | none => .error (.fail (.read 2))
      else pure (false, { uri with scheme := .none })
    else pure (false, uri)
  else pure (false, uri)

/-! ## The documented form -/

structure Parts where
  scheme : Bytes
  /-- Whether the two slashes are there. -/
  slashes : Bool
  host : Bytes
  port : Option Bytes
  path : Bytes
  deriving DecidableEq

def decimal (ds : Bytes) : Nat := ds.foldl (fun n b => n * 10 + (b.toNat - 48)) 0

namespace Parts

def portText (p : Parts) : Bytes :=
  match p.port with
  | some ds => colonByte :: ds
  | none => []

/-- From the host on. -/
def authorityText (p : Parts) : Bytes := p.host ++ (p.portText ++ p.path)

def text (p : Parts) : Bytes := p.scheme ++ colonByte :: ((if p.slashes then [slashByte, slashByte] else []) ++ p.authorityText)

def portNumber (p : Parts) : Nat :=
  match p.port with
  | some ds => decimal ds
  | none => 80

/-- A letter in lower case. -/
def letter (b : UInt8) : UInt8 := if 65 ≤ b ∧ b ≤ 90 then b + 32 else b

structure Valid (p : Parts) : Prop where
  scheme : p.scheme.map letter = [104, 116, 116, 112]
  host_ne : p.host ≠ []
  host : slashByte ∉ p.host ∧ colonByte ∉ p.host
  port : ∀ ds ∈ p.port, ds ≠ [] ∧ (∀ b ∈ ds, isDigit b) ∧ 1 ≤ decimal ds ∧ decimal ds ≤ 65535
  path : p.path.head? = some slashByte

/-- What the code needs of a URI in the documented form: both slashes, no zero byte in the path, a path that
is longer than the host if there is a port, and otherwise no colon at the beginning of the path. -/
def Regular (p : Parts) : Prop :=
  p.slashes = true ∧ (0 : UInt8) ∉ p.path ∧ (match p.port with
      | some _ => p.host.length < p.path.length
      | none => colonByte ∉ p.path.take (p.path.length - p.host.length))

end Parts

/-- The host and the path are strings in the buffer. -/
structure Sets (uri : Uri) (host : Bytes) (port : Nat) (path : Bytes) : Prop where
  scheme : uri.scheme = .http
  port : uri.port = port
  hostAt : uri.host = some 0
  pathAt : uri.path = some (host.length + 1)
  size : uri.size = host.length + 1 + (path.length + 1)
  strings : uri.ptr.take uri.size = host ++ 0 :: (path ++ [0])

/-- A call, with a text in a 32-bit address space and a buffer with a size of 32 bits. -/
structure Input where
  base : Nat
  text : Bytes
  uri : Uri
  base_pos : 0 < base
  text_end : base + text.length ≤ 4294967296
  sizeMax_lt : uri.ptr.length < 4294967296

def Input.Documented (x : Input) (p : Parts) : Prop := p.Valid ∧ p.text = x.text ∧ x.text.length < x.uri.ptr.length

/-- The parts of a text of the documented form are set, and for every other text an error is returned. In no
case is there a read outside of the text or a write outside of the buffer: those are faults. -/
def Input.Correct (x : Input) : Prop :=
  (∀ p, x.Documented p → ∃ uri', str2uri x.base x.text x.uri = .ok (true, uri') ∧ Sets uri' p.host p.portNumber p.path) ∧
  ((∀ p, ¬ x.Documented p) → ∃ uri', str2uri x.base x.text x.uri = .ok (false, uri'))

/-! ## What becomes of a text -/

/-- The bytes before the colon are taken for `http`: a control character is as good as a colon behind it. -/
def HttpLike (head : Bytes) : Prop := (head.take 4).map lower = [104, 116, 116, 112] ∧ (head.length = 4 ∨ head[4]? = some 26)

instance (head : Bytes) : Decidable (HttpLike head) := inferInstanceAs (Decidable (_ ∧ _))

/-- The number goes on to the end of the text. -/
def Overruns : Nat → Bytes → Prop
  | _, [] => True
  | result, b :: bs =>
    isDigit b = true ∧ result < 18446744073709551615 ∧ Overruns ((result * 10 + (b.toNat - 48)) % 18446744073709551616) bs

/-- A text that is taken for one with the scheme `http`, up to the slashes. -/
structure Split (text head : Bytes) (first : UInt8) (gap rest : Bytes) : Prop where
  eq : text = head ++ colonByte :: first :: (gap ++ rest)
  colon : colonByte ∉ head
  http : HttpLike head
  slashes : ∀ b ∈ gap, b = slashByte
  rest_ne : rest ≠ []
  rest_head : rest.head? ≠ some slashByte

structure Slash (rest authority more : Bytes) : Prop where
  eq : rest = authority ++ slashByte :: more
  slash : slashByte ∉ authority

/-- The first colon in as many bytes as there are from the slash on. -/
structure Colon (rest more pre post : Bytes) : Prop where
  eq : rest = pre ++ colonByte :: post
  colon : colonByte ∉ pre
  length_le : pre.length ≤ more.length

def Room (sizeMax : Nat) (host path : Bytes) : Prop := host.length + 1 + path.length < sizeMax

instance (sizeMax : Nat) (host path : Bytes) : Decidable (Room sizeMax host path) := inferInstanceAs (Decidable (_ < _))

inductive Refused (base sizeMax : Nat) (text : Bytes) : Prop
  | tooLong (h : sizeMax ≤ text.length)
  | noColon (h : colonByte ∉ text) (hbase : base + sizeMax ≤ 4294967296)
  | scheme (head tail : Bytes) (heq : text = head ++ colonByte :: tail) (hhead : colonByte ∉ head)
      (hhttp : ¬ HttpLike head)
  | noSlash (head : Bytes) (first : UInt8) (gap rest : Bytes) (hsplit : Split text head first gap rest)
      (hslash : slashByte ∉ rest)
  | noNumber (head : Bytes) (first : UInt8) (gap rest authority more pre post : Bytes)
      (hsplit : Split text head first gap rest) (hslash : Slash rest authority more)
      (hcolon : Colon rest more pre post) (hdigit : ∃ b ∈ post.head?, isDigit b = false)
  | noRoom (head : Bytes) (first : UInt8) (gap rest authority more pre post : Bytes)
      (hsplit : Split text head first gap rest) (hslash : Slash rest authority more)
      (hcolon : Colon rest more pre post) (hnumber : ¬ Overruns 0 post)
      (hroom : ¬ Room sizeMax pre (cString (slashByte :: more)))

/-- Bytes are copied into the buffer, and one is written behind them. -/
theorem wrBytes_wr (mem bs : Bytes) (i : Nat) (b : UInt8) (h : i + bs.length < mem.length) :
    ∃ copied, wrBytes mem i bs = .ok copied ∧
      wr copied (i + bs.length) b = .ok (mem.take i ++ (bs ++ b :: mem.drop (i + bs.length + 1))) := by
  refine ⟨_, wrBytes_eq (Nat.le_of_lt h), ?_⟩
  have hlen : (mem.take i ++ bs).length = i + bs.length := by
    rw [length_append, length_take]
    omega
  rw [wr_ok (by rw [length_append, hlen, length_drop]; omega),
    set_append_right _ _ (Nat.le_of_eq hlen), hlen, Nat.sub_self, drop_eq_getElem_cons h,
    set_cons_zero, append_assoc]

/-! ## The scheme -/

section

variable {text head tail : Bytes} {base : Nat} {uri : Uri} {post ptr : Bytes}

theorem copyScheme_eq {pre : Bytes} {i : Nat} (h : text.drop i = pre ++ post) (hfit : i + pre.length ≤ ptr.length) :
    copyScheme text i pre.length ptr = wrBytes ptr i (pre.map lower) := by
  induction pre generalizing i ptr with
  | nil => rfl
  | cons b pre ih =>
    rw [length_cons] at hfit
    rw [length_cons, copyScheme, rd_drop h, map_cons, wrBytes, ok_bind, wr_ok (by omega)]
    apply ih (drop_succ h)
    rw [length_set]
    omega

theorem copyScheme_outside {i n : Nat} (hi : i ≤ text.length) (hn : text.length < i + n)
    (hfit : i + n ≤ ptr.length) : ∃ e, copyScheme text i n ptr = .error (.fail e) := by
  induction n generalizing i ptr with
  | zero => omega
  | succ n ih =>
    rw [copyScheme]
    by_cases hin : i < text.length
    · rw [rd_ok (getElem?_eq_getElem hin), ok_bind, wr_ok (by omega)]
      apply ih (by omega) (by omega)
      rw [length_set]
      omega
    · rw [rd_outside (by omega)]
      exact ⟨_, rfl⟩

/-- The scheme in the buffer is compared with `http:`. -/
theorem memcmp_httpColon : memcmp (head.map lower ++ colonByte :: post) 0 httpColon = .ok (decide (HttpLike head)) := by
  by_cases hlen : head.length < 4
  · have hnot : ¬ HttpLike head := by
      intro h
      have := congrArg List.length h.1
      simp at this
      omega
    have hletters : ∀ n < 4, httpColon[n]? ≠ some colonByte := by decide
    rw [decide_eq_false hnot]
    apply memcmp_false _ ⟨post, rfl⟩
    · rw [length_map]
      exact hletters _ hlen
    · rw [length_map]
      exact Nat.lt_of_lt_of_le hlen (by decide)
  · rw [memcmp_eq (by simp [httpColon]; omega)]
    congr 2
    match head, hlen with
    | [], h | [_], h | [_, _], h | [_, _, _], h => simp at h
    | [_, _, _, _], _ => simp [HttpLike, httpColon, colonByte]
    | _ :: _ :: _ :: _ :: e :: _, _ =>
      have he : lower e = 58 ↔ e = 26 := by
        unfold lower
        split_ifs with h <;> grind
      simp [HttpLike, httpColon, he, and_assoc]

theorem str2uri_tooLong (h : uri.ptr.length ≤ text.length) : str2uri base text uri = .ok (false, uri) :=
  if_neg (Nat.not_lt_of_ge h)

/-- Up to the first colon, the text is compared with the scheme. -/
theorem str2uri_colon (base : Nat) (heq : text = head ++ colonByte :: tail) (hhead : colonByte ∉ head)
    (hfit : text.length < uri.ptr.length) :
    ∃ ptr : Bytes, ptr.length = uri.ptr.length ∧ str2uri base text uri =
      if HttpLike head then
        skipSlashes text (text.length + 1) (head.length + 2) >>=
          copyAuthority text { uri with ptr := ptr, scheme := .http, port := 80 }
      else .ok (false, { uri with ptr := ptr, scheme := .none }) := by
  have hlen : text.length = head.length + (tail.length + 1) := by rw [heq, length_append, length_cons]
  have hdrop : text.drop 0 = head ++ colonByte :: tail := heq
  have hcolon : memchr text colonByte 0 text.length = .ok (some head.length) := by
    rw [memchr_found hdrop hhead (by omega), Nat.zero_add]
  have hbyte : rd text head.length = .ok colonByte := by
    have htail := drop_append hdrop
    rw [Nat.zero_add] at htail
    exact rd_drop htail
  obtain ⟨ptr, hcopy, hwrite⟩ := wrBytes_wr uri.ptr (head.map lower) 0 colonByte (by
    rw [length_map]
    omega)
  rw [← copyScheme_eq hdrop (by omega)] at hcopy
  rw [length_map, Nat.zero_add, take_zero, nil_append] at hwrite
  refine ⟨head.map lower ++ colonByte :: uri.ptr.drop (head.length + 1), ?_, ?_⟩
  · simp
    omega
  rw [str2uri, if_pos hfit, hcolon]
  dsimp only [bind, Except.bind]
  rw [if_pos (by omega), hcopy]
  rw [hbyte]
  dsimp only [bind, Except.bind]
  rw [hwrite]
  dsimp only [bind, Except.bind]
  rw [memcmp_httpColon]
  by_cases hhttp : HttpLike head
  · simp [hhttp]
  · simp [hhttp, pure, Except.pure]

/-- Without a colon, the text is refused if the null pointer is far enough from it. -/
theorem str2uri_noColon (hcolon : colonByte ∉ text) (hpos : 0 < base)
    (hend : base + text.length ≤ 4294967296) (hfit : text.length < uri.ptr.length) :
    if base + uri.ptr.length ≤ 4294967296 then str2uri base text uri = .ok (false, uri)
    else ∃ e, str2uri base text uri = .error (.fail e) := by
  have hnone : memchr text colonByte 0 text.length = .ok none := memchr_none text [] (by simp) hcolon rfl
  have hlen : sub32 0 base = 4294967296 - base := by
    unfold sub32 u32i
    omega
  split_ifs with hfar
  · rw [str2uri, if_pos hfit, hnone]
    dsimp only [bind, Except.bind]
    rw [hlen, if_neg (by omega)]
    rfl
  rw [str2uri, if_pos hfit, hnone]
  dsimp only [bind, Except.bind]
  rw [hlen, if_pos (by omega)]
  by_cases hexact : 4294967296 - base = text.length
  · have hdrop : text.drop 0 = text ++ [] := by simp
    rw [hexact, copyScheme_eq hdrop (by omega), wrBytes_eq (by rw [length_map]; omega)]
    rw [rd_outside le_rfl]
    exact ⟨_, rfl⟩
  · have houtside : ∃ e, copyScheme text 0 (4294967296 - base) uri.ptr = .error (.fail e) :=
      copyScheme_outside (Nat.zero_le _) (by omega) (by omega)
    obtain ⟨e, he⟩ := houtside
    rw [he]
    exact ⟨e, rfl⟩

end

/-! ## The slashes -/

section

variable {text gap rest : Bytes} {fuel i : Nat}

theorem skipSlashes_eq (h : text.drop i = gap ++ rest) (hgap : ∀ b ∈ gap, b = slashByte)
    (hrest : rest.head? ≠ some slashByte) (hfuel : gap.length < fuel) :
    if rest = [] then ∃ e, skipSlashes text fuel i = .error (.fail e)
    else skipSlashes text fuel i = .ok (i + gap.length) := by
  induction gap generalizing i fuel with
  | nil =>
    obtain ⟨fuel, rfl⟩ := Nat.exists_eq_add_one.mpr hfuel
    cases rest with
    | nil =>
      rw [if_pos rfl, skipSlashes, rd_outside (drop_eq_nil_iff.mp h)]
      exact ⟨_, rfl⟩
    | cons b post =>
      rw [if_neg (cons_ne_nil b post), skipSlashes, rd_drop h, ok_bind, if_neg (fun hb => hrest (by rw [head?_cons, hb.1]))]
      rfl
  | cons b gap ih =>
    obtain ⟨fuel, rfl⟩ := Nat.exists_eq_add_one.mpr (Nat.zero_lt_of_lt hfuel)
    have hstep : skipSlashes text (fuel + 1) i = skipSlashes text fuel (i + 1) := by
      rw [skipSlashes, rd_drop h, ok_bind, if_pos ⟨hgap b (.head _), length_of_drop h⟩]
    rw [hstep, length_cons, Nat.add_comm gap.length, ← Nat.add_assoc]
    exact ih (drop_succ h) (fun a ha => hgap a (mem_cons_of_mem b ha)) (Nat.lt_of_succ_lt_succ hfuel)

end

/-! ## The port -/

section

variable {text post : Bytes} {i n result : Nat} {found : Bool}

theorem digits_ends (found : Bool) (h : text.drop i = post) (hn : post.length < n) :
    (Overruns result post → ∃ e, digits text i n (result, found) = .error (.fail e)) ∧
    (¬ Overruns result post → ∃ r, digits text i n (result, found) = .ok r ∧ (found = true → r.2 = true)) := by
  induction post generalizing i n result found with
  | nil =>
    obtain ⟨n, rfl⟩ := Nat.exists_eq_add_one.mpr hn
    rw [digits, rd_outside (drop_eq_nil_iff.mp h)]
    exact ⟨fun _ => ⟨_, rfl⟩, fun hover => absurd trivial hover⟩
  | cons b post ih =>
    obtain ⟨n, rfl⟩ := Nat.exists_eq_add_one.mpr (Nat.zero_lt_of_lt hn)
    rw [digits, rd_drop h, ok_bind]
    split_ifs with hdigit
    · obtain ⟨hfault, hends⟩ := ih true (drop_succ h) (Nat.lt_of_succ_lt_succ hn)
      refine ⟨fun hover => hfault hover.2.2, fun hover => ?_⟩
      obtain ⟨r, hr, htrue⟩ := hends (fun hrest => hover ⟨hdigit.1, hdigit.2, hrest⟩)
      exact ⟨r, hr, fun _ => htrue rfl⟩
    · exact ⟨fun hover => absurd ⟨hover.1, hover.2.1⟩ hdigit, fun _ => ⟨_, rfl, id⟩⟩

theorem str2uint32_overrun (h : text.drop i = post) (hover : Overruns 0 post) (hn : post.length < n) :
    ∃ e, str2uint32 text i n = .error (.fail e) := by
  obtain ⟨e, he⟩ := (digits_ends false h hn).1 hover
  rw [str2uint32, he]
  exact ⟨e, rfl⟩

variable {b : UInt8}

theorem str2uint32_noDigit (h : text.drop i = b :: post) (hb : isDigit b = false) :
    str2uint32 text i (n + 1) = .ok (0, false) := by
  rw [str2uint32, digits, rd_drop h, ok_bind, if_neg (by simp [hb])]
  rfl

theorem exists_str2uint32 (h : text.drop i = post) (hover : ¬ Overruns 0 post) :
    ∃ port parsed, str2uint32 text i (post.length + 1) = .ok (port, parsed) ∧
      (parsed = false → ∃ b ∈ post.head?, isDigit b = false) := by
  cases post with
  | nil => exact absurd trivial hover
  | cons b post =>
    cases hb : isDigit b with
    | false => exact ⟨_, _, str2uint32_noDigit h hb, fun _ => ⟨b, rfl, hb⟩⟩
    | true =>
      have hlt : 0 < 18446744073709551615 := by decide
      obtain ⟨⟨r, _⟩, hr, hfound⟩ := (digits_ends true (drop_succ h) (Nat.lt_succ_self _)).2 (fun hrest => hover ⟨hb, hlt, hrest⟩)
      obtain rfl := hfound rfl
      rw [str2uint32, length_cons, digits, rd_drop h, ok_bind, if_pos ⟨hb, hlt⟩, hr]
      exact ⟨u32 r, true, rfl, by simp⟩

end

/-! ## The host and the path -/

section

variable {text host rest more : Bytes} {uri : Uri} {str slash : Nat}

/-- The host and the path are set if there is room for them. -/
theorem copyParts_spec {path : Bytes} (uri : Uri) (hhost : text.drop str = host ++ rest)
    (hslash : text.drop slash = slashByte :: more) (hpath : cString (slashByte :: more) = path)
    (hlen : text.length < 4294967296) (hmax : uri.ptr.length < 4294967296) (hscheme : uri.scheme = .http) :
    ∃ uri', copyParts text uri str slash host.length = .ok (decide (Room uri.ptr.length host path), uri') ∧
      (Room uri.ptr.length host path → Sets uri' host uri.port path) := by
  by_cases hfits : host.length < uri.ptr.length
  · obtain ⟨copied, hcopy, hend⟩ := wrBytes_wr uri.ptr host 0 0 (by omega)
    rw [Nat.zero_add, take_zero, nil_append] at hend
    have hsize : sub32 text.length slash = (slashByte :: more).length := by
      have := congrArg List.length hslash
      rw [length_drop, length_cons] at this
      rw [sub32_of_le (by omega) hlen, length_cons]
      omega
    have hstrnlen : strnlen text slash (slashByte :: more).length = .ok path.length :=
      hpath ▸ strnlen_cString _ [] (by rw [hslash, append_nil])
    have hbytes : rdBytes text slash path.length = .ok path :=
      rdBytes_drop _ ((slashByte :: more).dropWhile (· != 0)) (by
        rw [hslash, ← hpath, cString, takeWhile_append_dropWhile])
    have hleft : (host ++ 0 :: uri.ptr.drop (host.length + 1)).length = uri.ptr.length := by
      simp
      omega
    rw [copyParts, if_pos hfits, rdBytes_drop host rest hhost, ok_bind, hcopy, ok_bind, hend]
    rw [hsize, hstrnlen]
    dsimp only [bind, Except.bind]
    rw [hleft, sub32_of_le (by omega) hmax, hbytes]
    by_cases hroom : Room uri.ptr.length host path
    · have hlt : host.length + 1 + path.length < uri.ptr.length := hroom
      have hpos : 0 < path.length := by simp [← hpath, cString, slashByte]
      rw [decide_eq_true hroom, if_pos ⟨hpos, by omega⟩]
      obtain ⟨written, hwrite, hzero⟩ := wrBytes_wr (host ++ 0 :: uri.ptr.drop (host.length + 1))
        path (host.length + 1) 0 (by rw [hleft]; exact hlt)
      dsimp only [bind, Except.bind]
      rw [hwrite]
      dsimp only [bind, Except.bind]
      have hkept : (host ++ [0]).length = host.length + 1 := by simp
      rw [hzero, append_cons host, take_left' hkept]
      refine ⟨_, rfl, fun _ => ⟨hscheme, rfl, rfl, rfl, rfl, ?_⟩⟩
      rw [append_cons path, ← append_assoc, take_left']
      · simp
      · simp
        omega
    · have hge : ¬ host.length + 1 + path.length < uri.ptr.length := hroom
      rw [decide_eq_false hroom, if_neg (by omega)]
      exact ⟨_, rfl, fun h => absurd h hroom⟩
  · have hroom : ¬ Room uri.ptr.length host path := by
      unfold Room
      omega
    rw [copyParts, if_neg hfits, decide_eq_false hroom]
    exact ⟨_, rfl, fun h => absurd h hroom⟩

theorem copyAuthority_noSlash (hrest : text.drop str = rest) (hslash : slashByte ∉ rest)
    (hstr : str ≤ text.length) (hlen : text.length < 4294967296) : copyAuthority text uri str = .ok (false, uri) := by
  have hsize : rest.length = sub32 text.length str := by rw [sub32_of_le hstr hlen, ← hrest, length_drop]
  rw [copyAuthority, memchr_none rest [] (by rw [hrest, append_nil]) hslash hsize]
  rfl

variable {authority pre post : Bytes}

section

variable (hrest : text.drop str = rest) (hslash : Slash rest authority more)
include hrest hslash

/-- Without a port, the host goes up to the slash. -/
theorem copyAuthority_plain (hcolon : colonByte ∉ rest.take (more.length + 1)) (hlen : text.length < 4294967296) :
    copyAuthority text uri str = copyParts text uri str (str + authority.length) authority.length := by
  obtain ⟨rfl, hauthority⟩ := hslash
  have hsize := congrArg List.length hrest
  rw [length_drop, length_append, length_cons] at hsize
  rw [copyAuthority, sub32_of_le (by omega) hlen, memchr_found hrest hauthority (by omega)]
  dsimp only [bind, Except.bind]
  rw [sub32_of_le (by omega) hlen,
    memchr_none ((authority ++ slashByte :: more).take (more.length + 1))
      ((authority ++ slashByte :: more).drop (more.length + 1))
      (by rw [hrest, take_append_drop]) hcolon
      (by rw [length_take, length_append, length_cons]; omega)]
  rw [Nat.add_sub_cancel_left]

/-- With a port, the host goes up to the colon. -/
theorem copyAuthority_port (hcolon : Colon rest more pre post) (hlen : text.length < 4294967296) :
    copyAuthority text uri str = str2uint32 text (str + pre.length + 1) (post.length + 1) >>= fun r =>
      if r.2 then copyParts text { uri with port := u16 r.1 } str (str + authority.length) pre.length
      else .ok (false, { uri with port := u16 r.1 }) := by
  have hsize := congrArg List.length hrest
  have hsize1 := congrArg List.length hslash.eq
  have hsize2 := congrArg List.length hcolon.eq
  have hle := hcolon.length_le
  rw [length_drop] at hsize
  rw [length_append, length_cons] at hsize1 hsize2
  rw [copyAuthority, sub32_of_le (by omega) hlen, memchr_found (by rw [hrest, hslash.eq]) hslash.slash (by omega)]
  dsimp only [bind, Except.bind]
  rw [sub32_of_le (by omega) hlen, memchr_found (by rw [hrest, hcolon.eq]) hcolon.colon (by omega)]
  dsimp only [bind, Except.bind]
  rw [sub32_of_le (by omega) hlen, Nat.add_sub_cancel_left, (by omega : text.length - (str + pre.length) = post.length + 1)]
  rfl

end

end

/-! ## What becomes of every text -/

section

variable {text head gap rest authority more pre post : Bytes} {first : UInt8} {base : Nat} {uri : Uri} {i : Nat}

theorem Slash.drop (hslash : Slash rest authority more) (hrest : text.drop i = rest) :
    text.drop (i + authority.length) = slashByte :: more := drop_append (hrest.trans hslash.eq)

theorem Colon.drop (hcolon : Colon rest more pre post) (hrest : text.drop i = rest) :
    text.drop (i + pre.length + 1) = post := drop_succ (drop_append (hrest.trans hcolon.eq))

theorem exists_slash (h : slashByte ∈ rest) : ∃ authority more, Slash rest authority more := by
  obtain ⟨authority, more, hcut⟩ := eq_append_cons_of_mem h
  exact ⟨authority, more, hcut.1, hcut.2⟩

theorem exists_colon (h : colonByte ∈ rest.take (more.length + 1)) : ∃ pre post, Colon rest more pre post := by
  obtain ⟨pre, post, heq, hcolon⟩ := eq_append_cons_of_mem h
  have hlen := congrArg List.length heq
  rw [length_take, length_append, length_cons] at hlen
  refine ⟨pre, post ++ rest.drop (more.length + 1), ?_, hcolon, by omega⟩
  rw [← cons_append, ← append_assoc, ← heq, take_append_drop]

theorem exists_split {tail : Bytes} (heq : text = head ++ colonByte :: tail) (hcolon : colonByte ∉ head)
    (hhttp : HttpLike head) (hend : ¬ ∀ b ∈ tail.drop 1, b = slashByte) :
    ∃ first gap rest, Split text head first gap rest := by
  cases tail with
  | nil => exact absurd (by simp) hend
  | cons first tail =>
    have hcut := takeWhile_append_dropWhile (p := (· == slashByte)) (l := tail)
    refine ⟨first, tail.takeWhile (· == slashByte), tail.dropWhile (· == slashByte), ?_, hcolon, hhttp, ?_, ?_, ?_⟩
    · rw [hcut]
      exact heq
    · intro b hb
      simpa using mem_takeWhile_imp hb
    · intro hnil
      apply hend
      simpa [dropWhile_eq_nil_iff] using hnil
    intro hhead
    have hnot := head?_dropWhile_not (· == slashByte) tail
    rw [hhead] at hnot
    simp at hnot

theorem Input.text_lt {x : Input} (hfit : x.text.length < x.uri.ptr.length) : x.text.length < 4294967296 :=
  Nat.lt_trans hfit x.sizeMax_lt

theorem Split.run (hsplit : Split text head first gap rest) (base : Nat) (hfit : text.length < uri.ptr.length) :
    text.drop (head.length + 2 + gap.length) = rest ∧
    ∃ ptr : Bytes, ptr.length = uri.ptr.length ∧ str2uri base text uri =
      copyAuthority text { uri with ptr := ptr, scheme := .http, port := 80 } (head.length + 2 + gap.length) := by
  have hgap : text.drop (head.length + 2) = gap ++ rest := by
    rw [hsplit.eq, ← drop_drop, drop_left]
    rfl
  refine ⟨drop_append hgap, ?_⟩
  obtain ⟨ptr, hptr, hrun⟩ := str2uri_colon base hsplit.eq hsplit.colon hfit
  refine ⟨ptr, hptr, ?_⟩
  have hfuel : gap.length < text.length + 1 := by
    rw [hsplit.eq]
    simp
    omega
  have hskip := skipSlashes_eq hgap hsplit.slashes hsplit.rest_head hfuel
  rw [if_neg hsplit.rest_ne] at hskip
  rw [hrun, if_pos hsplit.http, hskip]
  rfl

theorem Refused.refuses (x : Input) (h : Refused x.base x.uri.ptr.length x.text) :
    ∃ uri', str2uri x.base x.text x.uri = .ok (false, uri') := by
  by_cases hfit : x.text.length < x.uri.ptr.length
  case neg => exact ⟨_, str2uri_tooLong (by omega)⟩
  have hlen := Input.text_lt hfit
  cases h with
  | tooLong h => omega
  | noColon h hbase =>
    have hrun := str2uri_noColon h x.base_pos x.text_end hfit
    rw [if_pos hbase] at hrun
    exact ⟨_, hrun⟩
  | scheme head tail heq hhead hhttp =>
    obtain ⟨ptr, -, hrun⟩ := str2uri_colon x.base heq hhead hfit
    rw [if_neg hhttp] at hrun
    exact ⟨_, hrun⟩
  | noSlash head first gap rest hsplit hslash =>
    obtain ⟨hrest, ptr, -, hrun⟩ := hsplit.run x.base hfit
    rw [hrun, copyAuthority_noSlash hrest hslash _ hlen]
    · exact ⟨_, rfl⟩
    rw [hsplit.eq]
    simp
    omega
  | noNumber head first gap rest authority more pre post hsplit hslash hcolon hdigit =>
    obtain ⟨hrest, ptr, -, hrun⟩ := hsplit.run x.base hfit
    obtain ⟨b, hb, hdigit⟩ := hdigit
    obtain ⟨post, rfl⟩ : ∃ bs, post = b :: bs := head?_eq_some_iff.mp hb
    rw [hrun, copyAuthority_port hrest hslash hcolon hlen, str2uint32_noDigit (hcolon.drop hrest) hdigit]
    exact ⟨_, rfl⟩
  | noRoom head first gap rest authority more pre post hsplit hslash hcolon hnumber hroom =>
    obtain ⟨hrest, ptr, hptr, hrun⟩ := hsplit.run x.base hfit
    rw [hrun, copyAuthority_port hrest hslash hcolon hlen]
    obtain ⟨port, parsed, hnumber, -⟩ := exists_str2uint32 (hcolon.drop hrest) hnumber
    rw [hnumber, ok_bind]
    split_ifs
    · obtain ⟨uri', hcopy, -⟩ := copyParts_spec { x.uri with ptr := ptr, scheme := .http, port := u16 port }
        (hrest.trans hcolon.eq) (hslash.drop hrest) rfl hlen (hptr ▸ x.sizeMax_lt) rfl
      rw [hcopy, decide_eq_false (by rwa [hptr])]
      exact ⟨_, rfl⟩
    · exact ⟨_, rfl⟩

/-- What is set for a text that is not refused: the host goes up to the slash, or to a colon. -/
inductive Accepted (text : Bytes) (uri : Uri) : Prop
  | intro (head : Bytes) (first : UInt8) (gap rest authority more host : Bytes) (port : Nat)
      (hsplit : Split text head first gap rest) (hslash : Slash rest authority more)
      (hhost : (host = authority ∧ colonByte ∉ rest.take (more.length + 1)) ∨ ∃ post, Colon rest more host post)
      (hsets : Sets uri host port (cString (slashByte :: more)))

theorem length_cString_le (bs : Bytes) : (cString bs).length ≤ bs.length := (takeWhile_sublist _).length_le

theorem Split.room (hsplit : Split text head first gap rest) (hslash : Slash rest authority more)
    {sizeMax : Nat} (hfit : text.length < sizeMax) : Room sizeMax authority (cString (slashByte :: more)) := by
  have hlen := congrArg List.length hsplit.eq
  have hcut := length_cString_le (slashByte :: more)
  rw [hslash.eq] at hlen
  simp only [length_append, length_cons] at hlen hcut
  unfold Room
  omega

section

variable {x : Input} (hsplit : Split x.text head first gap rest) (hslash : Slash rest authority more)
  (hfit : x.text.length < x.uri.ptr.length)
include hsplit hslash hfit

theorem Split.plain (hcolon : colonByte ∉ rest.take (more.length + 1)) :
    ∃ uri', str2uri x.base x.text x.uri = .ok (true, uri') ∧ Sets uri' authority 80 (cString (slashByte :: more)) := by
  have hlen := Input.text_lt hfit
  obtain ⟨hrest, ptr, hptr, hrun⟩ := hsplit.run x.base hfit
  rw [hrun, copyAuthority_plain hrest hslash hcolon hlen]
  obtain ⟨uri', hcopy, hsets⟩ := copyParts_spec { x.uri with ptr := ptr, scheme := .http, port := 80 }
    (hrest.trans hslash.eq) (hslash.drop hrest) rfl hlen (hptr ▸ x.sizeMax_lt) rfl
  have hroom := hsplit.room hslash (hptr ▸ hfit)
  exact ⟨uri', by rw [hcopy, decide_eq_true hroom], hsets hroom⟩

theorem Split.port (hcolon : Colon rest more pre post) {port : Nat}
    (hnumber : str2uint32 x.text (head.length + 2 + gap.length + pre.length + 1) (post.length + 1) = .ok (port, true))
    (hroom : Room x.uri.ptr.length pre (cString (slashByte :: more))) :
    ∃ uri', str2uri x.base x.text x.uri = .ok (true, uri') ∧ Sets uri' pre (u16 port) (cString (slashByte :: more)) := by
  have hlen := Input.text_lt hfit
  obtain ⟨hrest, ptr, hptr, hrun⟩ := hsplit.run x.base hfit
  rw [hrun, copyAuthority_port hrest hslash hcolon hlen, hnumber]
  obtain ⟨uri', hcopy, hsets⟩ := copyParts_spec { x.uri with ptr := ptr, scheme := .http, port := u16 port }
    (hrest.trans hcolon.eq) (hslash.drop hrest) rfl hlen (hptr ▸ x.sizeMax_lt) rfl
  rw [← hptr] at hroom
  exact ⟨uri', hcopy.trans (by rw [decide_eq_true hroom]), hsets hroom⟩

end

/-- A text is refused, or there is a read outside of it, or the host, the port and the path are set. -/
theorem exists_verdict (x : Input) :
    Refused x.base x.uri.ptr.length x.text ∨ (∃ e, str2uri x.base x.text x.uri = .error (.fail e)) ∨
      ∃ uri', str2uri x.base x.text x.uri = .ok (true, uri') ∧ Accepted x.text uri' := by
  by_cases hfit : x.text.length < x.uri.ptr.length
  case neg => exact .inl (.tooLong (by omega))
  by_cases hmem : colonByte ∈ x.text
  case neg =>
    have hrun := str2uri_noColon hmem x.base_pos x.text_end hfit
    split_ifs at hrun with hbase
    · exact .inl (.noColon hmem hbase)
    · exact .inr (.inl hrun)
  obtain ⟨head, tail, heq, hhead⟩ := eq_append_cons_of_mem hmem
  by_cases hhttp : HttpLike head
  case neg => exact .inl (.scheme head tail heq hhead hhttp)
  -- Nothing but slashes behind the colon and the byte that is skipped.
  by_cases hend : ∀ b ∈ tail.drop 1, b = slashByte
  case pos =>
    obtain ⟨ptr, -, hrun⟩ := str2uri_colon x.base heq hhead hfit
    have hdrop : x.text.drop (head.length + 2) = tail.drop 1 ++ [] := by
      rw [heq, ← drop_drop, drop_left, append_nil]
      rfl
    have hfuel : (tail.drop 1).length < x.text.length + 1 := by
      have := congrArg List.length heq
      rw [length_append, length_cons] at this
      rw [length_drop]
      omega
    obtain ⟨e, he⟩ := skipSlashes_eq hdrop hend (by simp) hfuel
    rw [if_pos hhttp, he] at hrun
    exact .inr (.inl ⟨e, hrun⟩)
  obtain ⟨first, gap, rest, hsplit⟩ := exists_split heq hhead hhttp hend
  by_cases hslashMem : slashByte ∈ rest
  case neg => exact .inl (.noSlash head first gap rest hsplit hslashMem)
  obtain ⟨authority, more, hslash⟩ := exists_slash hslashMem
  by_cases hcolonMem : colonByte ∈ rest.take (more.length + 1)
  case neg =>
    obtain ⟨uri', hrun, hsets⟩ := hsplit.plain hslash hfit hcolonMem
    exact .inr (.inr ⟨uri', hrun, .intro _ _ _ _ _ _ _ _ hsplit hslash (.inl ⟨rfl, hcolonMem⟩) hsets⟩)
  obtain ⟨pre, post, hcolon⟩ := exists_colon hcolonMem
  obtain ⟨hrest, ptr, -, hrun⟩ := hsplit.run x.base hfit
  have hpost := hcolon.drop hrest
  by_cases hover : Overruns 0 post
  case pos =>
    obtain ⟨e, he⟩ := str2uint32_overrun hpost hover (Nat.lt_succ_self _)
    rw [copyAuthority_port hrest hslash hcolon (Input.text_lt hfit), he] at hrun
    exact .inr (.inl ⟨e, hrun⟩)
  obtain ⟨port, parsed, hnumber, hdigit⟩ := exists_str2uint32 hpost hover
  cases parsed with
  | false => exact .inl (.noNumber _ _ _ _ _ _ _ _ hsplit hslash hcolon (hdigit rfl))
  | true =>
    by_cases hroom : Room x.uri.ptr.length pre (cString (slashByte :: more))
    case neg =>
      exact .inl (.noRoom _ _ _ _ _ _ _ _ hsplit hslash hcolon hover hroom)
    obtain ⟨uri', hrun, hsets⟩ := hsplit.port hslash hfit hcolon hnumber hroom
    exact .inr (.inr ⟨uri', hrun, .intro _ _ _ _ _ _ _ _ hsplit hslash (.inr ⟨post, hcolon⟩) hsets⟩)

end

/-! ## Texts of the documented form -/

section

variable {text ds post : Bytes} {i n r : Nat} {b : UInt8} {found : Bool}

theorem le_foldl_decimal : r ≤ ds.foldl (fun n b => n * 10 + (b.toNat - 48)) r := by
  induction ds generalizing r with
  | nil => exact le_rfl
  | cons d ds ih =>
    have hle : r ≤ r * 10 + (d.toNat - 48) := by omega
    exact Nat.le_trans hle ih

/-- The digits up to the end of the text that is allowed, or up to a byte that is no digit. -/
theorem digits_decimal (h : text.drop i = ds ++ post) (hds : ∀ d ∈ ds, isDigit d)
    (hend : ds.length = n ∨ ds.length < n ∧ ∃ b ∈ post.head?, isDigit b = false)
    (hlt : ds.foldl (fun n b => n * 10 + (b.toNat - 48)) r < 18446744073709551615) :
    digits text i n (r, found) = .ok (ds.foldl (fun n b => n * 10 + (b.toNat - 48)) r, found || !ds.isEmpty) := by
  induction ds generalizing i n r found with
  | nil =>
    rcases hend with rfl | ⟨hn, b, hhead, hb⟩
    · simp [digits, pure, Except.pure]
    · obtain ⟨n, rfl⟩ := Nat.exists_eq_add_one.mpr hn
      obtain ⟨post, rfl⟩ := head?_eq_some_iff.mp hhead
      rw [digits, rd_drop h, ok_bind, if_neg (by simp [hb])]
      simp [pure, Except.pure]
  | cons d ds ih =>
    obtain ⟨n, rfl⟩ := Nat.exists_eq_add_one.mpr (show 0 < n by rw [length_cons] at hend; omega)
    have hle : r * 10 + (d.toNat - 48) < 18446744073709551615 := Nat.lt_of_le_of_lt le_foldl_decimal hlt
    rw [digits, rd_drop h, ok_bind, if_pos ⟨hds d (.head _), by omega⟩, Nat.mod_eq_of_lt (by omega),
      ih (drop_succ h) (fun a ha => hds a (mem_cons_of_mem d ha))
        (by simpa only [length_cons, Nat.succ_lt_succ_iff, Nat.add_right_cancel_iff] using hend) hlt]
    simp

theorem str2uint32_decimal (h : text.drop i = ds ++ post) (hne : ds ≠ []) (hds : ∀ d ∈ ds, isDigit d)
    (hend : ds.length = n ∨ ds.length < n ∧ ∃ b ∈ post.head?, isDigit b = false)
    (hlt : decimal ds ≤ 4294967295) : str2uint32 text i n = .ok (decimal ds, true) := by
  have hsmall : decimal ds < 18446744073709551615 := by omega
  rw [str2uint32, digits_decimal h hds hend hsmall, ok_bind]
  have hu : u32 (ds.foldl (fun n b => n * 10 + (b.toNat - 48)) 0) = decimal ds := Nat.mod_eq_of_lt (Nat.lt_succ_of_le hlt)
  simp [hne, hu, pure, Except.pure]

/-- What `arm_uc_str2uint32` is for: the number that the leading digits of the text write, if there are some and
the number fits, and else a failure with zero. -/
def ReadsNumber (text : Bytes) : Prop :=
  str2uint32 text 0 text.length =
    if text.takeWhile isDigit ≠ [] ∧ decimal (text.takeWhile isDigit) ≤ 4294967295 then
      .ok (decimal (text.takeWhile isDigit), true)
    else .ok (0, false)

/-- **Numbers.** A number of more than 32 bits is not refused: what is left of it is the result. -/
theorem readsNumber_iff (text : Bytes) : ReadsNumber text ↔ decimal (text.takeWhile isDigit) ≤ 4294967295 := by
  have htext : text.drop 0 = text.takeWhile isDigit ++ text.dropWhile isDigit := takeWhile_append_dropWhile.symm
  have hlen := congrArg length htext
  rw [drop_zero, length_append] at hlen
  unfold ReadsNumber
  by_cases hne : text.takeWhile isDigit = []
  · rw [if_neg (fun h => h.1 hne), hne]
    refine iff_of_true ?_ (by decide)
    cases text with
    | nil => rfl
    | cons b text =>
      refine str2uint32_noDigit (b := b) rfl ?_
      by_contra hb
      rw [takeWhile_cons_of_pos (by simpa using hb)] at hne
      cases hne
  by_cases hlt : decimal (text.takeWhile isDigit) ≤ 4294967295
  · rw [if_pos ⟨hne, hlt⟩]
    refine iff_of_true (str2uint32_decimal htext hne (fun d hd => mem_takeWhile_imp hd) ?_ hlt) hlt
    cases hpost : text.dropWhile isDigit with
    | nil => exact .inl (by simp [hpost] at hlen; omega)
    | cons b post =>
      rw [hpost, length_cons] at hlen
      refine .inr ⟨by omega, b, rfl, ?_⟩
      have hhead := head?_dropWhile_not isDigit text
      rw [hpost] at hhead
      simpa using hhead
  · rw [if_neg (fun h => hlt h.2)]
    refine iff_of_false (fun hrun => ?_) hlt
    cases text with
    | nil => exact hne rfl
    | cons b text =>
      have hb : isDigit b = true := by
        by_contra hb
        exact hne (takeWhile_cons_of_neg hb)
      rw [str2uint32, length_cons, digits, rd_drop rfl, ok_bind, if_pos ⟨hb, by decide⟩] at hrun
      obtain ⟨⟨r, _⟩, hr, hfound⟩ := digits_inside ((0 * 10 + (b.toNat - 48)) % 18446744073709551616) true
        (show 0 + 1 + text.length ≤ (b :: text).length by rw [length_cons]; omega)
      obtain rfl := hfound rfl
      rw [hr] at hrun
      exact Bool.noConfusion (congrArg Prod.snd (Except.ok.inj hrun))

/-- `4294967296` is read as zero, with success. -/
theorem not_readsNumber_overflow : ¬ ReadsNumber [52, 50, 57, 52, 57, 54, 55, 50, 57, 54] := by
  intro h
  have hrun : str2uint32 [52, 50, 57, 52, 57, 54, 55, 50, 57, 54] 0 10 = .ok (0, true) := rfl
  cases hrun.symm.trans (h.trans (if_neg (by decide)))

end

theorem sets_unique {uri : Uri} {host host' path path' : Bytes} {port port' : Nat}
    (h : Sets uri host port path) (h' : Sets uri host' port' path') : host = host' ∧ path = path' := by
  have hlen : host.length = host'.length := by
    have := h.pathAt.symm.trans h'.pathAt
    simpa using this
  have hstrings := h.strings.symm.trans h'.strings
  obtain ⟨hhost, htail⟩ := append_inj hstrings hlen
  exact ⟨hhost, by simpa using htail⟩

namespace Parts

variable {p : Parts}

theorem lower_eq_of_letter {b c : UInt8} (h : letter b = c) (hc : 97 ≤ c) : lower b = c := by
  unfold letter at h
  unfold lower
  split_ifs at h with hcase
  · rw [if_pos (by grind), h]
  · subst h
    rw [if_neg (by grind)]

section

variable (hv : p.Valid)
include hv

theorem Valid.exists_path : ∃ more, p.path = slashByte :: more := head?_eq_some_iff.mp hv.path

theorem Valid.colon_scheme : colonByte ∉ p.scheme := by
  intro hmem
  have hletter : colonByte ∈ p.scheme.map letter := mem_map_of_mem (f := letter) hmem
  rw [hv.scheme] at hletter
  exact absurd hletter (by decide)

theorem Valid.httpLike : HttpLike p.scheme := by
  have hlen : p.scheme.length = 4 := by
    have := congrArg List.length hv.scheme
    rwa [length_map] at this
  have hmap : p.scheme.map lower = p.scheme.map letter := by
    apply map_congr_left
    intro b hb
    apply lower_eq_of_letter rfl
    have hmem := mem_map_of_mem (f := letter) hb
    rw [hv.scheme] at hmem
    revert hmem
    generalize letter b = c
    intro hmem
    simp only [mem_cons, not_mem_nil, or_false] at hmem
    rcases hmem with rfl | rfl | rfl | rfl <;> decide
  refine ⟨?_, .inl hlen⟩
  rw [take_of_length_le (Nat.le_of_eq hlen), hmap, hv.scheme]

theorem Valid.slash_portText : slashByte ∉ p.portText := by
  unfold portText
  cases hport : p.port with
  | none => simp
  | some ds =>
    intro hmem
    rcases mem_cons.mp hmem with heq | hmem
    · exact absurd heq (by decide)
    · have hdigit := (hv.port ds hport).2.1 slashByte hmem
      exact absurd hdigit (by decide)

theorem Valid.slash {more : Bytes} (hpath : p.path = slashByte :: more) : Slash p.authorityText (p.host ++ p.portText) more where
  eq := by rw [authorityText, hpath, append_assoc]
  slash := by
    rw [mem_append, not_or]
    exact ⟨hv.host.1, hv.slash_portText⟩

theorem Valid.split (hslashes : p.slashes = true) : Split p.text p.scheme slashByte [slashByte] p.authorityText where
  eq := by simp [text, hslashes]
  colon := hv.colon_scheme
  http := hv.httpLike
  slashes := by simp
  rest_ne := by simp [authorityText, hv.host_ne]
  rest_head := by
    obtain ⟨b, host, hhost⟩ := exists_cons_of_ne_nil hv.host_ne
    have hb : b ≠ slashByte := by
      rintro rfl
      apply hv.host.1
      rw [hhost]
      exact .head _
    simp [authorityText, hhost, hb]

theorem colon_mem_take (hport : p.port = none) :
    colonByte ∈ p.authorityText.take p.path.length ↔ colonByte ∈ p.path.take (p.path.length - p.host.length) := by
  rw [authorityText, portText, hport, nil_append, take_append, mem_append]
  constructor
  · rintro (hmem | hmem)
    · exact absurd (mem_of_mem_take hmem) hv.host.2
    · exact hmem
  · exact .inr

end

variable {gap rest : Bytes} {uri : Uri}

theorem Regular.sets {x : Input} (hdoc : x.Documented p) (hreg : p.Regular) :
    ∃ uri', str2uri x.base x.text x.uri = .ok (true, uri') ∧ Sets uri' p.host p.portNumber p.path := by
  obtain ⟨hv, heq, hfit⟩ := hdoc
  obtain ⟨hslashes, hzero, hbounds⟩ := hreg
  obtain ⟨more, hpath⟩ := hv.exists_path
  have hsplit := hv.split hslashes
  rw [heq] at hsplit
  have hslash := hv.slash hpath
  have hsize : p.path.length = more.length + 1 := by rw [hpath, length_cons]
  have hstring : cString (slashByte :: more) = p.path := by rw [← hpath, cString_eq hzero]
  rw [portNumber, ← hstring]
  cases hport : p.port with
  | none =>
    rw [hport] at hbounds
    have hnone : p.host ++ p.portText = p.host := by simp [portText, hport]
    rw [hnone] at hslash
    apply hsplit.plain hslash hfit
    rw [← hsize, colon_mem_take hv hport]
    exact hbounds
  | some ds =>
    rw [hport] at hbounds
    obtain ⟨hne, hdigits, -, hle⟩ := hv.port ds hport
    have hcolon : Colon p.authorityText more p.host (ds ++ slashByte :: more) :=
      ⟨by simp [authorityText, portText, hport, hpath], hv.host.2, by dsimp only at hbounds; omega⟩
    have hport16 : u16 (decimal ds) = decimal ds := Nat.mod_eq_of_lt (Nat.lt_succ_of_le hle)
    have hroom := hsplit.room hslash hfit
    obtain ⟨hrest, -⟩ := hsplit.run x.base hfit
    dsimp only
    rw [← hport16]
    refine hsplit.port hslash hfit hcolon
      (str2uint32_decimal (hcolon.drop hrest) hne hdigits (.inr ⟨?_, _, rfl, by decide⟩) (by omega)) ?_
    · rw [length_append]
      omega
    · unfold Room at hroom ⊢
      rw [length_append] at hroom
      omega

/-! ## Documented texts that are not split into their parts -/

/-- A list is split at the first occurrence of an element in one way. -/
theorem first_unique {c : UInt8} {pre pre' post post' : Bytes}
    (h : pre ++ c :: post = pre' ++ c :: post') (hpre : c ∉ pre) (hpre' : c ∉ pre') : pre = pre' ∧ post = post' := by
  have hlen := congrArg (idxOf c) h
  rw [idxOf_append_of_notMem hpre, idxOf_append_of_notMem hpre', idxOf_cons_self, idxOf_cons_self] at hlen
  obtain ⟨rfl, htail⟩ := append_inj h hlen
  exact ⟨rfl, (List.cons.inj htail).2⟩

theorem dropWhile_gap (hgap : ∀ b ∈ gap, b = slashByte)
    (hrest : rest.head? ≠ some slashByte) : (gap ++ rest).dropWhile (· == slashByte) = rest := by
  rw [dropWhile_append_of_pos (by simpa using hgap)]
  cases rest with
  | nil => rfl
  | cons b rest =>
    have hb : b ≠ slashByte := fun heq => hrest (by rw [heq, head?_cons])
    rw [dropWhile_cons_of_neg (by simpa using hb)]

theorem Split.unique {text head head' gap' rest' : Bytes} {first first' : UInt8}
    (h : Split text head first gap rest) (h' : Split text head' first' gap' rest') : rest = rest' := by
  have heq := h.eq.symm.trans h'.eq
  obtain ⟨-, htail⟩ := first_unique heq h.colon h'.colon
  have hgap : gap ++ rest = gap' ++ rest' := (List.cons.inj htail).2
  rw [← dropWhile_gap h.slashes h.rest_head, hgap, dropWhile_gap h'.slashes h'.rest_head]

theorem Slash.unique {authority authority' more more' : Bytes} (h : Slash rest authority more)
    (h' : Slash rest authority' more') : authority = authority' ∧ more = more' :=
  first_unique (h.eq.symm.trans h'.eq) h.slash h'.slash

theorem portText_length_ne_one (hv : p.Valid) : p.portText.length ≠ 1 := by
  unfold portText
  cases hport : p.port with
  | none => simp
  | some ds =>
    have hne := (hv.port ds hport).1
    simpa using hne

section NoSlashes

variable {b : UInt8} {head authority more host : Bytes} {first : UInt8}

theorem Valid.slash_host_tail (hv : p.Valid) (hhost : p.host = b :: host) : slashByte ∉ host := by
  intro hmem
  apply hv.host.1
  rw [hhost]
  exact mem_cons_of_mem b hmem

section

variable (hv : p.Valid) (hslashes : p.slashes = false) (hhost : p.host = b :: host) (hsplit : Split p.text head first gap rest)
include hv hslashes hhost hsplit

/-- Without the slashes, the first byte of the host is skipped. -/
theorem Valid.skip : gap ++ rest = host ++ p.portText ++ p.path := by
  have htext : p.text = p.scheme ++ colonByte :: p.authorityText := by simp [text, hslashes]
  obtain ⟨-, htail⟩ := first_unique (htext.symm.trans hsplit.eq) hv.colon_scheme hsplit.colon
  rw [authorityText, hhost, cons_append] at htail
  rw [← (List.cons.inj htail).2, append_assoc]

/-- If there is something left of the authority, then no slash is skipped. -/
theorem Valid.rest_eq (hne : host ++ p.portText ≠ []) : rest = host ++ p.portText ++ p.path := by
  obtain ⟨a, as, has⟩ := exists_cons_of_ne_nil hne
  have ha : a ≠ slashByte := by
    rintro rfl
    have hmem : slashByte ∈ host ++ p.portText := has ▸ (.head _)
    rcases mem_append.mp hmem with hmem | hmem
    · exact hv.slash_host_tail hhost hmem
    · exact hv.slash_portText hmem
  have hdrop := dropWhile_gap hsplit.slashes hsplit.rest_head
  rw [hv.skip hslashes hhost hsplit, has, cons_append, dropWhile_cons_of_neg (by simpa using ha)] at hdrop
  rw [has, cons_append]
  exact hdrop.symm

/-- If nothing is left of the authority, then slashes of the path are skipped. -/
theorem Valid.authority_ne (hslash : Slash rest authority more)
    (hstring : p.path = cString (slashByte :: more)) : host ++ p.portText ≠ [] := by
  intro hnil
  have heq := hv.skip hslashes hhost hsplit
  rw [hnil, nil_append] at heq
  have hne : gap ≠ [] := by
    rintro rfl
    rw [nil_append] at heq
    apply hsplit.rest_head
    rw [heq, hv.path]
  have hcut := length_cString_le (slashByte :: more)
  have hpos := length_pos_iff.mpr hne
  have hlen := congrArg List.length heq
  rw [hslash.eq] at hlen
  rw [← hstring] at hcut
  simp only [length_append, length_cons] at hlen hcut
  omega

end

end NoSlashes

section

variable (hv : p.Valid) (hacc : Accepted p.text uri) (hsets : Sets uri p.host p.portNumber p.path)
include hv hacc hsets

/-- Both slashes are needed. -/
theorem slashes_of_accepted : p.slashes = true := by
  by_contra hnot
  have hslashes : p.slashes = false := Bool.eq_false_of_not_eq_true hnot
  obtain ⟨b, host, hhost⟩ := exists_cons_of_ne_nil hv.host_ne
  obtain ⟨more', hpath⟩ := hv.exists_path
  have hslash' : Slash (host ++ p.portText ++ p.path) (host ++ p.portText) more' :=
    ⟨by rw [hpath], by simpa using ⟨hv.slash_host_tail hhost, hv.slash_portText⟩⟩
  obtain ⟨head, first, gap, rest, authority, more, host', port, hsplit, hslash, hend, hsets'⟩ := hacc
  obtain ⟨hsame, hstring⟩ := sets_unique hsets hsets'
  obtain rfl := hv.rest_eq hslashes hhost hsplit (hv.authority_ne hslashes hhost hsplit hslash hstring)
  rcases hend with ⟨rfl, -⟩ | ⟨post, hcolon⟩
  · obtain ⟨rfl, -⟩ := Slash.unique hslash hslash'
    have hlen := congrArg List.length hsame
    rw [hhost, length_append, length_cons] at hlen
    exact portText_length_ne_one hv (by omega)
  have heq := hcolon.eq
  rw [← hsame] at heq
  cases hport : p.port with
  | none =>
    -- The host would go one byte further, and hold the slash.
    have hget := congrArg (fun l : Bytes => l[host.length]?) heq
    rw [portText, hport, append_nil, hpath, hhost] at hget
    rw [getElem?_append_right le_rfl, getElem?_append_left (by simp), Nat.sub_self] at hget
    apply hv.host.1
    rw [hhost]
    exact mem_of_getElem? hget.symm
  | some ds =>
    rw [portText, hport, append_assoc, cons_append] at heq
    obtain ⟨hshort, -⟩ := first_unique heq (fun hmem => hv.host.2 (by rw [hhost]; exact mem_cons_of_mem b hmem)) hv.host.2
    have hlen := congrArg List.length hshort
    rw [hhost, length_cons] at hlen
    omega

theorem regular_of_accepted : p.Regular := by
  have hslashes := slashes_of_accepted hv hacc hsets
  obtain ⟨more', hpath⟩ := hv.exists_path
  have hsplit' := hv.split hslashes
  have hslash' := hv.slash hpath
  have hsize : p.path.length = more'.length + 1 := by rw [hpath, length_cons]
  obtain ⟨head, first, gap, rest, authority, more, host, port, hsplit, hslash, hend, hsets'⟩ := hacc
  obtain ⟨rfl, hstring⟩ := sets_unique hsets hsets'
  obtain rfl := Split.unique hsplit hsplit'
  obtain ⟨hauthority, rfl⟩ := Slash.unique hslash hslash'
  refine ⟨hslashes, ?_, ?_⟩
  · rw [hstring]
    exact zero_notMem_cString _
  rcases hend with ⟨hhost, hcolon⟩ | ⟨post, hcolon⟩
  · have hnone : p.port = none := by
      cases hport : p.port with
      | none => rfl
      | some ds =>
        have hlen := congrArg List.length (hhost.trans hauthority)
        rw [length_append, portText, hport, length_cons] at hlen
        omega
    rw [hnone]
    rw [← hsize, colon_mem_take hv hnone] at hcolon
    exact hcolon
  cases hport : p.port with
  | none =>
    -- The colon would be in the path, and the host would go beyond the slash.
    have heq := hcolon.eq
    rw [authorityText, portText, hport, nil_append, hpath] at heq
    have := append_cancel_left heq
    cases this
  | some ds =>
    have hle := hcolon.length_le
    exact (by omega : p.host.length < p.path.length)

end

end Parts

/-- For every text: the parts are set, or an error is returned, exactly if a text of the documented form is
regular, and every other text is one of those that are refused. -/
theorem str2uri_correct_iff (x : Input) :
    x.Correct ↔ (∀ p, x.Documented p → p.Regular) ∧ ((∀ p, ¬ x.Documented p) → Refused x.base x.uri.ptr.length x.text) := by
  constructor
  · rintro ⟨hsets, hrefuses⟩
    refine ⟨fun p hdoc => ?_, fun hnone => ?_⟩
    · obtain ⟨uri', hrun, hsets⟩ := hsets p hdoc
      rcases exists_verdict x with href | ⟨e, herr⟩ | ⟨uri'', hrun', hacc⟩
      · obtain ⟨uri'', hfalse⟩ := href.refuses
        cases hrun.symm.trans hfalse
      · cases hrun.symm.trans herr
      cases hrun.symm.trans hrun'
      rw [← hdoc.2.1] at hacc
      exact Parts.regular_of_accepted hdoc.1 hacc hsets
    · obtain ⟨uri', hrun⟩ := hrefuses hnone
      rcases exists_verdict x with href | ⟨e, herr⟩ | ⟨uri'', hrun', -⟩
      · exact href
      · cases hrun.symm.trans herr
      · cases hrun.symm.trans hrun'
  · rintro ⟨hregular, hrefused⟩
    exact ⟨fun p hdoc => (hregular p hdoc).sets hdoc, fun hnone => (hrefused hnone).refuses⟩

/-- `http://ab:8/x`: the colon is looked for in the two bytes `ab`. -/
def shortPath : Parts := ⟨[104, 116, 116, 112], true, [97, 98], some [56], [47, 120]⟩

/-- The text of `shortPath`, with a buffer of 16 bytes. -/
def shortPathInput : Input where
  base := 4096
  text := shortPath.text
  uri := ⟨List.replicate 16 0, 0, .none, 0, none, none⟩
  base_pos := by decide
  text_end := by decide
  sizeMax_lt := by decide

theorem shortPath_documented : shortPathInput.Documented shortPath := by
  refine ⟨⟨by decide, by decide, by decide, fun ds hds => ?_, by decide⟩, rfl, by decide⟩
  obtain rfl := Option.mem_some_iff.mp hds
  exact ⟨by decide, forall_mem_singleton.mpr rfl, by decide, by decide⟩

/-- The port is not seen, and becomes a part of the host. -/
theorem str2uri_not_correct : ¬ ∀ x : Input, x.Correct := by
  intro h
  obtain ⟨uri', hrun, hsets⟩ := (h shortPathInput).1 shortPath shortPath_documented
  have hport : (str2uri shortPathInput.base shortPathInput.text shortPathInput.uri).map (·.2.port) = .ok 80 := by decide
  rw [hrun] at hport
  exact absurd (hsets.port.symm.trans (Except.ok.inj hport)) (by decide)

end MbedCloud.Update.Str2uri


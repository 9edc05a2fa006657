import Mathlib.Data.List.DropRight
import NewZone.Js.Text
import NewZone.Lib.Separator

/-!
# Request targets

What `fetch` sends as the target of a request for an `http:` URL: the path and the query
that the URL parser makes of the text behind the origin.  The parser reads scalar values.
It drops some of them, resolves the segments `.` and `..`, percent-encodes others and ends
the path at `?` or `#`.  A text comes out as it went in exactly when it is `Kept`
(`prefix_target_iff`).
-/

namespace NewZone.Js.Url

open NewZone.Separator

/-- What differs between versions of the URL standard and of its implementations. -/
structure Client where
  /-- `^` is in the path percent-encode set -/
  encodesCaret : Bool
  /-- a `?` with nothing behind it is sent -/
  sendsEmptyQuery : Bool

/-- The path percent-encode set. -/
def pathSet (client : Client) (c : Char) : Bool :=
  c.toNat < 0x20 || 0x7E < c.toNat || [' ', '"', '#', '<', '>', '?', '`', '{', '}'].contains c ||
    (client.encodesCaret && c == '^')

/-- The special-query percent-encode set. -/
def specialQuerySet (c : Char) : Bool :=
  c.toNat < 0x20 || 0x7E < c.toNat || [' ', '"', '#', '<', '>', '\''].contains c

def hexUpper (n : ℕ) : Char := Char.ofNat (if n < 10 then 0x30 + n else 0x37 + n)

def percentByte (b : UInt8) : List Char := ['%', hexUpper (b.toNat / 16), hexUpper (b.toNat % 16)]

/-- UTF-8 percent-encode. -/
def percentEncode (set : Char → Bool) (c : Char) : List Char :=
  if set c then (String.utf8EncodeChar c).flatMap percentByte else [c]

def singleDot (segment : List Char) : Bool :=
  [['.'], ['%', '2', 'e']].contains (segment.map Char.toLower)

def doubleDot (segment : List Char) : Bool :=
  [['.', '.'], ['.', '%', '2', 'e'], ['%', '2', 'e', '.'], ['%', '2', 'e', '%', '2', 'e']].contains
    (segment.map Char.toLower)

/-- What the parser has read of a URL. -/
structure Parsed where
  path : List (List Char)
  query : Option (List Char)

/-- The end of a segment, at a `/` or at the end of the path. -/
def endSegment (path : List (List Char)) (buffer : List Char) (slash : Bool) : List (List Char) :=
  if doubleDot buffer then if slash then path.dropLast else path.dropLast ++ [[]]
  else if singleDot buffer then if slash then path else path ++ [[]]
  else path ++ [buffer]

/-- The query state. -/
def queryState (text : List Char) : List Char :=
  (text.takeWhile fun c => c ≠ '#').flatMap (percentEncode specialQuerySet)

/-- The path state. -/
def pathState (client : Client) (path : List (List Char)) (buffer : List Char) : List Char → Parsed
  | [] => { path := endSegment path buffer false, query := none }
  | c :: rest =>
    if c = '/' ∨ c = '\\' then pathState client (endSegment path buffer true) [] rest
    else if c = '?' then
      { path := endSegment path buffer false, query := some (queryState rest) }
    else if c = '#' then { path := endSegment path buffer false, query := none }
    else pathState client path (buffer ++ percentEncode (pathSet client) c) rest

/-- The path start state. -/
def pathStart (client : Client) : List Char → Parsed
  | [] => pathState client [] [] []
  | c :: rest =>
    if c = '/' ∨ c = '\\' then pathState client [] [] rest else pathState client [] [] (c :: rest)

/-- Trailing controls and spaces go, and so do all tabs and newlines. -/
def clean (text : List Char) : List Char :=
  (text.rdropWhile fun c => c.toNat ≤ 0x20).filter fun c => ¬ ['\t', '\n', '\r'].contains c

def serializePath (path : List (List Char)) : List Char := path.flatMap fun segment => '/' :: segment

def serializeQuery (client : Client) : Option (List Char) → List Char
  | none => []
  | some [] => if client.sendsEmptyQuery then ['?'] else []
  | some query => '?' :: query

/-- What is sent for a text behind an origin. -/
def target (client : Client) (text : List Char) : List Char :=
  let url := pathStart client (clean text)
  serializePath url.path ++ serializeQuery client url.query

/-- `fetch(origin + text)` -/
def requestTarget (client : Client) (text : JsString) : JsString :=
  (target client (scalars text)).flatMap charUnits

/-! ## What comes out -/

variable {client : Client}

/-- Characters that may be in the path of a target. -/
def keptInPath (client : Client) (c : Char) : Bool := !pathSet client c && c != '\\'

theorem hexUpper_kept (client : Client) {n : ℕ} (hn : n < 16) :
    keptInPath client (hexUpper n) = true ∧ hexUpper n ≠ '/' ∧ specialQuerySet (hexUpper n) = false := by
  have hall : ∀ caret empty, ∀ m < 16, keptInPath ⟨caret, empty⟩ (hexUpper m) = true ∧
      hexUpper m ≠ '/' ∧ specialQuerySet (hexUpper m) = false := by decide
  exact hall _ _ n hn

theorem forall_percentEncode {P : Char → Prop} {set : Char → Bool} {c : Char} (hpercent : P '%')
    (hhex : ∀ n < 16, P (hexUpper n)) (hc : set c = false → P c) : ∀ d ∈ percentEncode set c, P d := by
  intro d hd
  unfold percentEncode at hd
  split_ifs at hd with hset
  · obtain ⟨b, -, hd⟩ := List.mem_flatMap.mp hd
    have hb := b.toNat_lt
    simp only [percentByte, List.mem_cons, List.not_mem_nil, or_false] at hd
    rcases hd with rfl | rfl | rfl
    · exact hpercent
    · exact hhex _ (by omega)
    · exact hhex _ (Nat.mod_lt _ (by decide))
  · rw [List.mem_singleton.mp hd]
    exact hc (by simpa using hset)

theorem forall_queryState (text : List Char) :
    ∀ c ∈ queryState text, specialQuerySet c = false := by
  intro c hc
  obtain ⟨d, -, hc⟩ := List.mem_flatMap.mp hc
  exact forall_percentEncode (P := fun c => specialQuerySet c = false) (by decide)
    (fun n hn => (hexUpper_kept ⟨false, false⟩ hn).2.2) id c hc

/-- All segments are made of characters that are kept. -/
def Segments (client : Client) (path : List (List Char)) : Prop :=
  ∀ segment ∈ path, ∀ c ∈ segment, keptInPath client c = true ∧ c ≠ '/'

theorem Segments.endSegment {path : List (List Char)} {buffer : List Char}
    (hpath : Segments client path) (hbuffer : ∀ c ∈ buffer, keptInPath client c = true ∧ c ≠ '/')
    (slash : Bool) : Segments client (endSegment path buffer slash) := by
  have hsnoc : ∀ {p : List (List Char)} {s : List Char}, Segments client p →
      (∀ c ∈ s, keptInPath client c = true ∧ c ≠ '/') → Segments client (p ++ [s]) := by
    intro p s hp hs
    exact List.forall_mem_append.mpr ⟨hp, List.forall_mem_singleton.mpr hs⟩
  have hdrop : Segments client path.dropLast := fun segment hmem =>
    hpath segment ((List.dropLast_sublist path).subset hmem)
  unfold Url.endSegment
  split_ifs
  · exact hdrop
  · exact hsnoc hdrop nofun
  · exact hpath
  · exact hsnoc hpath nofun
  · exact hsnoc hpath hbuffer

theorem segments_pathState {path : List (List Char)} {buffer : List Char} (text : List Char)
    (hpath : Segments client path) (hbuffer : ∀ c ∈ buffer, keptInPath client c = true ∧ c ≠ '/') :
    Segments client (pathState client path buffer text).path ∧
      ∀ query ∈ (pathState client path buffer text).query, ∀ c ∈ query, specialQuerySet c = false := by
  induction text generalizing path buffer with
  | nil => exact ⟨hpath.endSegment hbuffer false, nofun⟩
  | cons c text ih =>
    unfold pathState
    split_ifs with hslash hquery hhash
    · exact ih (hpath.endSegment hbuffer true) nofun
    · refine ⟨hpath.endSegment hbuffer false, fun query hq => ?_⟩
      rw [← Option.some.inj hq]
      exact forall_queryState text
    · exact ⟨hpath.endSegment hbuffer false, nofun⟩
    · rw [not_or] at hslash
      refine ih hpath (List.forall_mem_append.mpr ⟨hbuffer, ?_⟩)
      refine forall_percentEncode ?_ (fun n hn => ?_) fun hc => ?_
      · have hall : ∀ caret empty, keptInPath ⟨caret, empty⟩ '%' = true ∧ '%' ≠ '/' := by decide
        exact hall _ _
      · exact ⟨(hexUpper_kept client hn).1, (hexUpper_kept client hn).2.1⟩
      · exact ⟨by simp [keptInPath, hc, hslash.2], hslash.1⟩

/-! ## What is kept -/

/-- A text that the parser leaves as it is: it neither encodes nor drops a character, ends
the path where it ends, and finds no `.` or `..` in it. -/
structure Kept (client : Client) (text : List Char) : Prop where
  path : ∀ c ∈ text.takeWhile (· ≠ '?'), keptInPath client c = true
  segments : ∀ segment ∈ (text.takeWhile (· ≠ '?')).splitOn '/',
    singleDot segment = false ∧ doubleDot segment = false
  query : ∀ c ∈ (text.dropWhile (· ≠ '?')).tail, specialQuerySet c = false
  mark : text.dropWhile (· ≠ '?') = ['?'] → client.sendsEmptyQuery = true

theorem percentEncode_of_not {set : Char → Bool} {c : Char} (h : set c = false) :
    percentEncode set c = [c] := if_neg (by simp [h])

theorem keptInPath_iff {c : Char} :
    keptInPath client c = true ↔ pathSet client c = false ∧ c ≠ '\\' := by
  simp [keptInPath]

theorem ne_of_kept {c : Char} (h : keptInPath client c = true) : c ≠ '?' ∧ c ≠ '#' := by
  constructor
  · rintro rfl
    simp [keptInPath, pathSet] at h
  · rintro rfl
    simp [keptInPath, pathSet] at h

/-- A character that is kept in the path goes into the segment, or ends it. -/
theorem pathState_cons {c : Char} (h : keptInPath client c = true) (path : List (List Char))
    (buffer text : List Char) : pathState client path buffer (c :: text)
      = if c = '/' then pathState client (endSegment path buffer true) [] text
        else pathState client path (buffer ++ [c]) text := by
  obtain ⟨hset, hback⟩ := keptInPath_iff.mp h
  obtain ⟨hquery, hhash⟩ := ne_of_kept h
  rw [pathState, percentEncode_of_not hset]
  by_cases hslash : c = '/'
  · rw [if_pos (.inl hslash), if_pos hslash]
  · rw [if_neg (by simp [hslash, hback]), if_neg hquery, if_neg hhash, if_neg hslash]

/-- The query is read behind the path. -/
theorem pathState_query {text : List Char} (h : ∀ c ∈ text, keptInPath client c = true)
    (path : List (List Char)) (buffer query : List Char) :
    pathState client path buffer (text ++ '?' :: query)
      = { pathState client path buffer text with query := some (queryState query) } := by
  induction text generalizing path buffer with
  | nil => rfl
  | cons c text ih =>
    obtain ⟨hc, htext⟩ := List.forall_mem_cons.mp h
    rw [List.cons_append, pathState_cons hc, pathState_cons hc]
    split_ifs
    · exact ih htext _ _
    · exact ih htext _ _

theorem query_pathState {text : List Char} (h : ∀ c ∈ text, keptInPath client c = true)
    (path : List (List Char)) (buffer : List Char) :
    (pathState client path buffer text).query = none := by
  induction text generalizing path buffer with
  | nil => rfl
  | cons c text ih =>
    obtain ⟨hc, htext⟩ := List.forall_mem_cons.mp h
    rw [pathState_cons hc]
    split_ifs
    · exact ih htext _ _
    · exact ih htext _ _

theorem serializePath_snoc (path : List (List Char)) (segment : List Char) :
    serializePath (path ++ [segment]) = serializePath path ++ '/' :: segment := by
  unfold serializePath
  rw [List.flatMap_append, List.flatMap_singleton]

theorem length_serializePath_dropLast (path : List (List Char)) :
    (serializePath path.dropLast).length ≤ (serializePath path).length := by
  induction path using List.reverseRecOn with
  | nil => exact le_rfl
  | append_singleton path segment _ =>
    rw [List.dropLast_concat, serializePath_snoc, List.length_append]
    exact Nat.le_add_right _ _

/-- A segment is appended as it is, or it is a dot segment and the path gets shorter than
with it. -/
theorem serializePath_endSegment (path : List (List Char)) (buffer : List Char) (slash : Bool) :
    ((singleDot buffer = false ∧ doubleDot buffer = false) ∧
        serializePath (endSegment path buffer slash) = serializePath path ++ '/' :: buffer) ∨
      ¬ (singleDot buffer = false ∧ doubleDot buffer = false) ∧
        (serializePath (endSegment path buffer slash)).length
          < (serializePath path ++ '/' :: buffer).length := by
  have hdrop := length_serializePath_dropLast path
  have hpos : singleDot buffer = true ∨ doubleDot buffer = true → 0 < buffer.length := by
    intro h
    refine List.length_pos_of_ne_nil fun hnil => ?_
    rw [hnil] at h
    exact absurd h (by decide)
  unfold endSegment
  split_ifs with hdouble hslash hsingle hslash
  · have := hpos (.inr hdouble)
    refine .inr ⟨by simp [hdouble], ?_⟩
    rw [List.length_append, List.length_cons]
    omega
  · have := hpos (.inr hdouble)
    refine .inr ⟨by simp [hdouble], ?_⟩
    rw [serializePath_snoc]
    simp only [List.length_append, List.length_cons, List.length_nil]
    omega
  · refine .inr ⟨by simp [hsingle], ?_⟩
    rw [List.length_append, List.length_cons]
    omega
  · have := hpos (.inl hsingle)
    refine .inr ⟨by simp [hsingle], ?_⟩
    rw [serializePath_snoc]
    simp only [List.length_append, List.length_cons, List.length_nil]
    omega
  · exact .inl ⟨⟨by simpa using hsingle, by simpa using hdouble⟩, serializePath_snoc path buffer⟩

/-- The path is read as it is, or there is a dot segment in it and it gets shorter. -/
theorem serializePath_pathState {text : List Char} (h : ∀ c ∈ text, keptInPath client c = true)
    (path : List (List Char)) {buffer : List Char} (hbuffer : '/' ∉ buffer) :
    ((∀ segment ∈ (buffer ++ text).splitOn '/',
          singleDot segment = false ∧ doubleDot segment = false) ∧
        serializePath (pathState client path buffer text).path
          = serializePath path ++ '/' :: (buffer ++ text)) ∨
      ¬ (∀ segment ∈ (buffer ++ text).splitOn '/',
          singleDot segment = false ∧ doubleDot segment = false) ∧
        (serializePath (pathState client path buffer text).path).length
          < (serializePath path ++ '/' :: (buffer ++ text)).length := by
  induction text generalizing path buffer with
  | nil =>
    rw [List.append_nil, List.splitOn_eq_singleton hbuffer, List.forall_mem_singleton]
    exact serializePath_endSegment path buffer false
  | cons c text ih =>
    obtain ⟨hc, htext⟩ := List.forall_mem_cons.mp h
    rw [pathState_cons hc]
    split_ifs with hslash
    · rw [hslash, List.splitOn_append_cons_self_of_not_mem hbuffer, List.forall_mem_cons]
      have hend := serializePath_endSegment path buffer true
      have hrest := ih htext (endSegment path buffer true) List.not_mem_nil
      rw [List.nil_append] at hrest
      rcases hrest with ⟨hall, heq⟩ | ⟨hnot, hlt⟩
      · rcases hend with ⟨hdots, hend⟩ | ⟨hdots, hend⟩
        · refine .inl ⟨⟨hdots, hall⟩, ?_⟩
          rw [heq, hend]
          simp
        · refine .inr ⟨fun h => hdots h.1, ?_⟩
          rw [heq]
          simp only [List.length_append, List.length_cons] at hend ⊢
          omega
      · refine .inr ⟨fun h => hnot h.2, ?_⟩
        have hle : (serializePath (endSegment path buffer true)).length
            ≤ (serializePath path ++ '/' :: buffer).length := by
          rcases hend with ⟨-, hend⟩ | ⟨-, hend⟩
          · rw [hend]
          · exact hend.le
        simp only [List.length_append, List.length_cons] at hlt hle ⊢
        omega
    · have hnext : '/' ∉ buffer ++ [c] := by
        rw [List.mem_append, List.mem_singleton, not_or]
        exact ⟨hbuffer, Ne.symm hslash⟩
      have hrest := ih htext path hnext
      rwa [List.append_assoc, List.singleton_append] at hrest

/-! ## Texts that are sent as they are -/

/-- Neither a control nor a space. -/
theorem lt_of_not {c : Char} (hcontrol : ¬ c.toNat < 0x20) (hspace : c ≠ ' ') :
    0x20 < c.toNat := by
  refine lt_of_le_of_ne (not_lt.mp hcontrol) fun he => hspace ?_
  rw [← Char.ofNat_toNat c, ← he]

theorem lt_of_kept {c : Char} (h : keptInPath client c = true) : 0x20 < c.toNat := by
  obtain ⟨hset, -⟩ := keptInPath_iff.mp h
  refine lt_of_not (fun hlt => ?_) ?_
  · simp [pathSet, hlt] at hset
  · rintro rfl
    simp [pathSet] at hset

theorem lt_of_query {c : Char} (h : specialQuerySet c = false) : 0x20 < c.toNat := by
  refine lt_of_not (fun hlt => ?_) ?_
  · simp [specialQuerySet, hlt] at h
  · rintro rfl
    simp [specialQuerySet] at h

/-- Nothing is dropped from a text without controls and spaces. -/
theorem clean_of_forall {text : List Char} (h : ∀ c ∈ text, 0x20 < c.toNat) : clean text = text := by
  have hrdrop : text.rdropWhile (fun c => decide (c.toNat ≤ 0x20)) = text := by
    refine List.rdropWhile_eq_self_iff.mpr fun hne => ?_
    have := h _ (List.getLast_mem hne)
    simpa using this
  unfold clean
  rw [hrdrop]
  refine List.filter_eq_self.mpr fun c hc => ?_
  have hc := h c hc
  refine decide_eq_true fun hmem => ?_
  simp only [List.contains_cons, List.contains_nil, Bool.or_false, Bool.or_eq_true, beq_iff_eq] at hmem
  rcases hmem with rfl | rfl | rfl
  · exact absurd hc (by decide)
  · exact absurd hc (by decide)
  · exact absurd hc (by decide)

theorem flatMap_percentEncode {set : Char → Bool} {text : List Char}
    (h : ∀ c ∈ text, set c = false) : text.flatMap (percentEncode set) = text := by
  induction text with
  | nil => rfl
  | cons c text ih =>
    obtain ⟨hc, htext⟩ := List.forall_mem_cons.mp h
    rw [List.flatMap_cons, percentEncode_of_not hc, ih htext]
    rfl

theorem queryState_of_forall {text : List Char} (h : ∀ c ∈ text, specialQuerySet c = false) :
    queryState text = text := by
  have hhash : text.takeWhile (fun c => decide (c ≠ '#')) = text := by
    refine List.takeWhile_eq_self_iff.mpr fun c hc => decide_eq_true ?_
    rintro rfl
    exact absurd (h _ hc) (by decide)
  unfold queryState
  rw [hhash]
  exact flatMap_percentEncode h

theorem target_cons (text : List Char) (h : ∀ c ∈ text, 0x20 < c.toNat) :
    target client ('/' :: text) = serializePath (pathState client [] [] text).path
      ++ serializeQuery client (pathState client [] [] text).query := by
  have hclean : clean ('/' :: text) = '/' :: text :=
    clean_of_forall (List.forall_mem_cons.mpr ⟨by decide, h⟩)
  rw [target, hclean]
  rfl

/-- The path and the query of a text whose characters are all kept. -/
theorem target_of_chars {p d : List Char} (hp : ∀ c ∈ p, keptInPath client c = true)
    (hd : d = [] ∨ ∃ q, d = '?' :: q ∧ ∀ c ∈ q, specialQuerySet c = false) :
    target client ('/' :: (p ++ d)) = serializePath (pathState client [] [] p).path
      ++ (if d = ['?'] ∧ client.sendsEmptyQuery = false then [] else d) := by
  have hlt : ∀ c ∈ p, 0x20 < c.toNat := fun c hc => lt_of_kept (hp c hc)
  rcases hd with rfl | ⟨q, rfl, hq⟩
  · rw [List.append_nil, target_cons p hlt, query_pathState hp]
    simp [serializeQuery]
  · have htext : ∀ c ∈ p ++ '?' :: q, 0x20 < c.toNat :=
      List.forall_mem_append.mpr ⟨hlt, List.forall_mem_cons.mpr
        ⟨by decide, fun c hc => lt_of_query (hq c hc)⟩⟩
    rw [target_cons _ htext, pathState_query hp, queryState_of_forall hq]
    cases q with
    | nil => cases hempty : client.sendsEmptyQuery <;> simp [serializeQuery, hempty]
    | cons c q => simp [serializeQuery]

theorem serializePath_pathState_nil {p : List Char} (hp : ∀ c ∈ p, keptInPath client c = true) :
    ((∀ segment ∈ p.splitOn '/', singleDot segment = false ∧ doubleDot segment = false) ∧
        serializePath (pathState client [] [] p).path = '/' :: p) ∨
      ¬ (∀ segment ∈ p.splitOn '/', singleDot segment = false ∧ doubleDot segment = false) ∧
        (serializePath (pathState client [] [] p).path).length < ('/' :: p).length :=
  serializePath_pathState hp [] List.not_mem_nil

/-- A text that is kept is sent as it is. -/
theorem target_of_kept {text : List Char} (h : Kept client text) :
    target client ('/' :: text) = '/' :: text := by
  have hd : text.dropWhile (· ≠ '?') = [] ∨ ∃ q, text.dropWhile (· ≠ '?') = '?' :: q ∧
      ∀ c ∈ q, specialQuerySet c = false := by
    refine (cutAt_takeWhile '?' text).2.imp_right fun hq => ?_
    obtain ⟨q, hq⟩ := hq
    have hquery := h.query
    rw [hq] at hquery
    exact ⟨q, hq, hquery⟩
  have htarget := target_of_chars h.path hd
  rw [List.takeWhile_append_dropWhile] at htarget
  rw [htarget, if_neg]
  · rcases serializePath_pathState_nil h.path with ⟨-, heq⟩ | ⟨hnot, -⟩
    · rw [heq, List.cons_append, List.takeWhile_append_dropWhile]
    · exact absurd h.segments hnot
  · intro hempty
    rw [h.mark hempty.1] at hempty
    cases hempty.2

/-- Whatever goes in, the characters that come out are of these kinds. -/
theorem exists_parts (client : Client) (text : List Char) :
    ∃ P Q, target client text = P ++ Q ∧ (∀ c ∈ P, keptInPath client c = true) ∧
      (Q = [] ∨ ∃ q, Q = '?' :: q ∧ ∀ c ∈ q, specialQuerySet c = false) := by
  obtain ⟨rest, hrest⟩ : ∃ rest, pathStart client (clean text) = pathState client [] [] rest := by
    cases clean text with
    | nil => exact ⟨[], rfl⟩
    | cons c rest =>
      unfold pathStart
      dsimp only
      split_ifs
      · exact ⟨rest, rfl⟩
      · exact ⟨c :: rest, rfl⟩
  obtain ⟨hpath, hquery⟩ := @segments_pathState client [] [] rest nofun nofun
  refine ⟨serializePath (pathState client [] [] rest).path,
    serializeQuery client (pathState client [] [] rest).query, ?_, ?_, ?_⟩
  · rw [target, hrest]
  · intro c hc
    obtain ⟨segment, hsegment, hc⟩ := List.mem_flatMap.mp hc
    rcases List.mem_cons.mp hc with rfl | hc
    · have hall : ∀ caret empty, keptInPath ⟨caret, empty⟩ '/' = true := by decide
      exact hall _ _
    · exact (hpath segment hsegment c hc).1
  · cases hq : (pathState client [] [] rest).query with
    | none => exact .inl rfl
    | some q =>
      cases q with
      | nil =>
        unfold serializeQuery
        split_ifs
        · exact .inr ⟨[], rfl, nofun⟩
        · exact .inl rfl
      | cons c q => exact .inr ⟨c :: q, rfl, hquery _ hq⟩

/-- A text that comes out in front has only characters that are kept. -/
theorem chars_of_prefix {p d : List Char} (hpd : CutAt '?' p d)
    (h : '/' :: (p ++ d) <+: target client ('/' :: (p ++ d))) :
    (∀ c ∈ p, keptInPath client c = true) ∧
      (d = [] ∨ ∃ q, d = '?' :: q ∧ ∀ c ∈ q, specialQuerySet c = false) := by
  obtain ⟨P, Q, htarget, hP, hQ⟩ := exists_parts client ('/' :: (p ++ d))
  have hPQ : CutAt '?' P Q :=
    ⟨fun hmem => (ne_of_kept (hP _ hmem)).1 rfl, hQ.imp_right fun hq => hq.imp fun _ hq => hq.1⟩
  have hslash : CutAt '?' ('/' :: p) d := by
    refine ⟨?_, hpd.2⟩
    rw [List.mem_cons, not_or]
    exact ⟨by decide, hpd.1⟩
  obtain ⟨hpP, hdQ⟩ := hslash.of_prefix hPQ (htarget ▸ h)
  refine ⟨fun c hc => hP c (hpP.subset (List.mem_cons_of_mem _ hc)), ?_⟩
  rcases hpd.2 with hnil | ⟨q, rfl⟩
  · exact .inl hnil
  · rcases hdQ with hnil | ⟨-, hdQ⟩
    · cases hnil
    · rcases hQ with rfl | ⟨q', rfl, hq'⟩
      · exact absurd (List.prefix_nil.mp hdQ) nofun
      · refine .inr ⟨q, rfl, fun c hc => hq' c ?_⟩
        exact (List.cons_prefix_cons.mp hdQ).2.subset hc

/-- Then nothing is encoded, and the lengths tell whether anything is dropped. -/
theorem kept_of_prefix {text : List Char} (h : '/' :: text <+: target client ('/' :: text)) :
    Kept client text := by
  have hsplit : text.takeWhile (· ≠ '?') ++ text.dropWhile (· ≠ '?') = text :=
    List.takeWhile_append_dropWhile
  have hcut := cutAt_takeWhile '?' text
  suffices hkept : ∀ p d, p ++ d = text → CutAt '?' p d → (∀ c ∈ p, keptInPath client c = true) ∧
      (∀ segment ∈ p.splitOn '/', singleDot segment = false ∧ doubleDot segment = false) ∧
      (∀ c ∈ d.tail, specialQuerySet c = false) ∧ (d = ['?'] → client.sendsEmptyQuery = true) by
    obtain ⟨hpath, hsegments, hquery, hmark⟩ := hkept _ _ hsplit hcut
    exact ⟨hpath, hsegments, hquery, hmark⟩
  rintro p d rfl hpd
  obtain ⟨hpath, hquery⟩ := chars_of_prefix hpd h
  have hlength := h.length_le
  have hshort : (if d = ['?'] ∧ client.sendsEmptyQuery = false then [] else d).length ≤ d.length := by
    split_ifs
    · exact Nat.zero_le _
    · exact le_rfl
  rw [target_of_chars hpath hquery, ← List.cons_append, List.length_append,
    List.length_append] at hlength
  refine ⟨hpath, ?_, ?_, fun hmark => ?_⟩
  · rcases serializePath_pathState_nil hpath with ⟨hdots, -⟩ | ⟨-, hlt⟩
    · exact hdots
    · omega
  · rcases hquery with rfl | ⟨q, rfl, hq⟩
    · exact nofun
    · exact hq
  · by_contra hempty
    rw [if_pos ⟨hmark, by simpa using hempty⟩, hmark] at hlength
    have hle : (serializePath (pathState client [] [] p).path).length ≤ ('/' :: p).length := by
      rcases serializePath_pathState_nil hpath with ⟨-, heq⟩ | ⟨-, hlt⟩
      · rw [heq]
      · exact hlt.le
    simp only [List.length_nil, List.length_cons] at hlength hle
    omega

/-- **Which texts are sent as they are.**  What is sent begins with the text exactly when the
text is kept. -/
theorem prefix_target_iff (text : List Char) :
    '/' :: text <+: target client ('/' :: text) ↔ Kept client text := by
  constructor
  · exact kept_of_prefix
  · intro h
    rw [target_of_kept h]

/-! ## As code units -/

theorem charUnits_of_ascii {c : Char} (h : c.toNat < 0x80) : charUnits c = [UInt16.ofNat c.toNat] :=
  if_pos (by omega)

theorem flatMap_charUnits_of_ascii {text : List Char} (h : ∀ c ∈ text, c.toNat < 0x80) :
    text.flatMap charUnits = text.map fun c => UInt16.ofNat c.toNat := by
  induction text with
  | nil => rfl
  | cons c text ih =>
    obtain ⟨hc, htext⟩ := List.forall_mem_cons.mp h
    rw [List.flatMap_cons, charUnits_of_ascii hc, ih htext]
    rfl

theorem scalars_prefix_of_ascii {s : JsString} {text : List Char} (h : ∀ c ∈ text, c.toNat < 0x80)
    (hs : s <+: text.flatMap charUnits) : scalars s <+: text := by
  have htake : ∀ c ∈ text.take s.length, c.toNat < 0x80 := fun c hc => h c (List.mem_of_mem_take hc)
  have hs : s = (text.take s.length).flatMap charUnits := by
    rw [flatMap_charUnits_of_ascii htake, List.map_take, ← flatMap_charUnits_of_ascii h]
    exact List.prefix_iff_eq_take.mp hs
  rw [hs, scalars_flatMap_charUnits]
  exact List.take_prefix _ _

theorem ascii_of_kept {c : Char} (h : keptInPath client c = true) : c.toNat < 0x80 := by
  obtain ⟨hset, -⟩ := keptInPath_iff.mp h
  by_contra hge
  have hlong : 0x7E < c.toNat := by omega
  simp [pathSet, hlong] at hset

theorem ascii_of_query {c : Char} (h : specialQuerySet c = false) : c.toNat < 0x80 := by
  by_contra hge
  have hlong : 0x7E < c.toNat := by omega
  simp [specialQuerySet, hlong] at h

theorem ascii_target (client : Client) (text : List Char) :
    ∀ c ∈ target client text, c.toNat < 0x80 := by
  obtain ⟨P, Q, htarget, hP, hQ⟩ := exists_parts client text
  rw [htarget]
  refine List.forall_mem_append.mpr ⟨fun c hc => ascii_of_kept (hP c hc), ?_⟩
  rcases hQ with rfl | ⟨q, rfl, hq⟩
  · exact nofun
  · exact List.forall_mem_cons.mpr ⟨by decide, fun c hc => ascii_of_query (hq c hc)⟩

end NewZone.Js.Url

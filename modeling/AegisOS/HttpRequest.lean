import AegisOS.Lib.Strings

/-! The reading of a request in RustMyAdmin (`rustmyadmin/src/app.rs`): what is read does not depend
on how the stream was cut into reads. `lossy` is `String::from_utf8_lossy`. -/
namespace AegisOS.HttpRequest
open Strings

abbrev Bytes := List UInt8

def maxRequestBytes : Nat := 64 * 1024

def usizeMax : Nat := 0xFFFFFFFFFFFFFFFF

structure Request where
  method : Text := []
  path : Text := []
  headers : Text → Option Text := fun _ => none
  body : Text := []

/-- `str::lines` -/
def lines : Text → List Text
  | [] => []
  | '\r' :: '\n' :: s => [] :: lines s
  | '\n' :: s => [] :: lines s
  | c :: s =>
    match lines s with
    | [] => [[c]]
    | l :: ls => (c :: l) :: ls

def splitWhitespace (s : Text) : List Text := (s.splitOnP isWhite).filter fun w => w ≠ []

/-- `str::parse::<usize>` -/
def parseUsize (s : Text) : Option Nat :=
  let digits := if s.head? = some '+' then s.tail else s
  let value := digits.foldl (fun n c => 10 * n + (c.toNat - '0'.toNat)) 0
  if digits ≠ [] ∧ digits.all Char.isDigit ∧ value ≤ usizeMax then some value else none

def findHeaderEnd : Bytes → Option Nat
  | [] => none
  | b :: rest =>
    if (b :: rest).take 4 = [13, 10, 13, 10] then some 0 else (findHeaderEnd rest).map (· + 1)

def parseContentLength (headers : Text) : Nat :=
  ((lines headers).findSome? fun line => (splitOnce ':' line).bind fun (name, value) =>
    if lowercase (trim name) = "content-length".toList then parseUsize (trim value) else none).getD 0

section
variable (lossy : Bytes → Text)

/-- The loop of `read_http_request`; `reads` is what the reads return. -/
def readLoop : List Bytes → Option Nat → Bytes → Except String Bytes
  | [], _, bytes => .ok bytes
  | chunk :: reads, headerEnd, bytes =>
    if chunk = [] then .ok bytes
    else
      let bytes := bytes ++ chunk
      if bytes.length > maxRequestBytes then .error "RustMyAdmin request exceeded 64 KiB"
      else
        let headerEnd := headerEnd.or (findHeaderEnd bytes)
        match headerEnd with
        | none => readLoop reads headerEnd bytes
        | some fin =>
          if parseContentLength (lossy (bytes.take fin)) ≤ bytes.length - (fin + 4) then .ok bytes
          else readLoop reads headerEnd bytes

/-- What `read_http_request` makes of the bytes it has read. -/
def parseRequest (bytes : Bytes) : Request :=
  match findHeaderEnd bytes with
  | none => {}
  | some fin =>
    let headerText := lossy (bytes.take fin)
    let parts := splitWhitespace ((lines headerText).headD [])
    let bodyStart := fin + 4
    let bodyEnd := min (min (bodyStart + parseContentLength headerText) usizeMax) bytes.length
    { method := parts.headD []
      path := parts.tail.headD ['/']
      headers := (lines headerText).tail.foldl (fun headers line =>
        match splitOnce ':' line with
        | none => headers
        | some (name, value) => Function.update headers (lowercase (trim name)) (some (trim value)))
        fun _ => none
      body := lossy ((bytes.take bodyEnd).drop bodyStart) }

def readHttpRequest (reads : List Bytes) : Except String Request :=
  (readLoop lossy reads none []).map (parseRequest lossy)

end

open List
variable {lossy : Bytes → Text} {bytes more : Bytes} {fin : Nat}

theorem findHeaderEnd_le (h : findHeaderEnd bytes = some fin) : fin + 4 ≤ bytes.length := by
  induction bytes generalizing fin with
  | nil => cases h
  | cons b rest ih =>
    rw [findHeaderEnd] at h
    split at h
    next hmatch =>
      cases h
      have hlen : min 4 (b :: rest).length = 4 := length_take.symm.trans (congrArg _ hmatch)
      omega
    · obtain ⟨n, hn, rfl⟩ := Option.map_eq_some_iff.mp h
      exact Nat.succ_le_succ (ih hn)

/-- The first empty line stays where it is when more is read. -/
theorem findHeaderEnd_append (h : findHeaderEnd bytes = some fin) :
    findHeaderEnd (bytes ++ more) = some fin := by
  have hlen := findHeaderEnd_le h
  induction bytes generalizing fin with
  | nil => cases h
  | cons b rest ih =>
    have htake : (b :: rest ++ more).take 4 = (b :: rest).take 4 :=
      take_append_of_le_length (by omega)
    rw [findHeaderEnd] at h
    rw [cons_append, findHeaderEnd, ← cons_append, htake]
    split at h
    next hmatch =>
      rw [if_pos hmatch]
      exact h
    next hmatch =>
      obtain ⟨n, hn, rfl⟩ := Option.map_eq_some_iff.mp h
      rw [if_neg hmatch, ih hn (findHeaderEnd_le hn)]
      rfl

/-- The body is there as far as its length is announced. -/
def Complete (lossy : Bytes → Text) (bytes : Bytes) : Prop :=
  ∃ fin, findHeaderEnd bytes = some fin ∧
    parseContentLength (lossy (bytes.take fin)) ≤ bytes.length - (fin + 4)

theorem Complete.parseRequest_append (h : Complete lossy bytes) :
    parseRequest lossy (bytes ++ more) = parseRequest lossy bytes := by
  obtain ⟨fin, hfin, hlength⟩ := h
  have hle := findHeaderEnd_le hfin
  have htake : (bytes ++ more).take fin = bytes.take fin := take_append_of_le_length (by omega)
  simp only [parseRequest, hfin, findHeaderEnd_append hfin, htake]
  have hend : ∀ n, bytes.length ≤ n →
      min (min (fin + 4 + parseContentLength (lossy (bytes.take fin))) usizeMax) n =
        min (fin + 4 + parseContentLength (lossy (bytes.take fin))) usizeMax :=
    fun n hn => by omega
  rw [hend _ (Nat.le_refl _), hend _ (by rw [length_append]; omega),
    take_append_of_le_length (by omega)]

theorem readLoop_spec (bytes : Bytes) (reads : List Bytes) (hne : ∀ chunk ∈ reads, chunk ≠ [])
    (hmax : (bytes ++ reads.flatten).length ≤ maxRequestBytes) :
    ∃ got more, readLoop lossy reads (findHeaderEnd bytes) bytes = .ok got ∧
      got ++ more = bytes ++ reads.flatten ∧ (more = [] ∨ Complete lossy got) := by
  induction reads generalizing bytes with
  | nil => exact ⟨bytes, [], rfl, rfl, .inl rfl⟩
  | cons chunk reads ih =>
    obtain ⟨hchunk, hreads⟩ := forall_mem_cons.mp hne
    rw [flatten_cons, ← append_assoc] at hmax ⊢
    -- The header end that an earlier round found is the one of the longer buffer.
    have hend : (findHeaderEnd bytes).or (findHeaderEnd (bytes ++ chunk)) =
        findHeaderEnd (bytes ++ chunk) := by
      cases hfind : findHeaderEnd bytes with
      | none => rfl
      | some fin => exact (findHeaderEnd_append hfind).symm
    have hrest := ih (bytes ++ chunk) hreads hmax
    rw [length_append] at hmax
    rw [readLoop, if_neg hchunk]
    simp only [hend]
    rw [if_neg (by omega)]
    cases hfind : findHeaderEnd (bytes ++ chunk) with
    | none => rwa [hfind] at hrest
    | some fin =>
      simp only
      split
      next hlength => exact ⟨bytes ++ chunk, reads.flatten, rfl, rfl, .inr ⟨fin, hfind, hlength⟩⟩
      · rwa [hfind] at hrest

theorem readHttpRequest_eq (reads : List Bytes) (hne : ∀ chunk ∈ reads, chunk ≠ [])
    (hmax : reads.flatten.length ≤ maxRequestBytes) :
    readHttpRequest lossy reads = .ok (parseRequest lossy reads.flatten) := by
  obtain ⟨got, more, hloop, hall, hdone⟩ := readLoop_spec [] reads hne hmax
  refine (congrArg (Except.map (parseRequest lossy)) hloop).trans (congrArg Except.ok ?_)
  rw [nil_append] at hall
  rw [← hall]
  rcases hdone with rfl | hcomplete
  · rw [append_nil]
  · exact hcomplete.parseRequest_append.symm

/-- However a stream of at most 64 KiB is cut into reads, the same request is read. -/
theorem readHttpRequest_segmentation (lossy : Bytes → Text) (reads reads' : List Bytes)
    (hne : ∀ chunk ∈ reads, chunk ≠ []) (hne' : ∀ chunk ∈ reads', chunk ≠ [])
    (hstream : reads.flatten = reads'.flatten) (hmax : reads.flatten.length ≤ maxRequestBytes) :
    ∃ request, readHttpRequest lossy reads = .ok request ∧
      readHttpRequest lossy reads' = .ok request := by
  refine ⟨_, readHttpRequest_eq reads hne hmax, ?_⟩
  rw [hstream] at hmax ⊢
  exact readHttpRequest_eq reads' hne' hmax

theorem two_reads_one_read : ∃ request, readHttpRequest (fun b => b.map fun c => Char.ofNat c.toNat)
      [utf8 "GET / HTTP/1.1\r\n\r".toList, utf8 "\nabc".toList] = .ok request ∧
    readHttpRequest (fun b => b.map fun c => Char.ofNat c.toNat)
      [utf8 "GET / HTTP/1.1\r\n\r\nabc".toList] = .ok request := by
  apply readHttpRequest_segmentation <;> decide +kernel

end AegisOS.HttpRequest

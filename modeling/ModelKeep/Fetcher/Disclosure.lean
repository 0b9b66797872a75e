import ModelKeep.Fetcher.Redaction

/-!
# What a reported failure discloses of a URL

A URL among white space comes down to its endpoint as long as the pattern
matches all of it.  The apostrophe is a character of URLs that the pattern does
not match, and from there on a URL is reported as it stands.
-/

namespace ModelKeep
namespace Fetcher
namespace Redaction

open Regex

/-! ## URLs by their parts -/

/-- A character that may stand in most parts of a URL, or one of these. -/
def urlPart (extra : String) (c : Nat) : Bool :=
  isAlphanumeric c || oneOf "-._~" c || oneOf "!$&()*+,;=" c ||
    c == apostrophe || oneOf extra c

/-- An absolute URL with an authority. -/
structure Url where
  scheme : Text
  userinfo : Option Text
  host : Text
  port : Option Text
  path : Text
  query : Option Text
  fragment : Option Text
  scheme_letter : scheme.head?.any isLetter = true
  scheme_chars : ∀ c ∈ scheme, isSchemeChar c = true
  userinfo_chars : ∀ info ∈ userinfo, ∀ c ∈ info, urlPart "%:" c = true
  /-- A registered name, or an address in brackets. -/
  host_chars : (∀ c ∈ host, urlPart "%" c = true) ∨
    ∃ address, host = opening :: (address ++ [closing]) ∧
      ∀ c ∈ address, urlPart ":" c = true
  port_chars : ∀ digits ∈ port, ∀ c ∈ digits, isDigit c = true
  path_root : path.head?.all (oneOf "/") = true
  path_chars : ∀ c ∈ path, urlPart "%:@/" c = true
  query_chars : ∀ text ∈ query, ∀ c ∈ text, urlPart "%:@/?" c = true
  fragment_chars : ∀ text ∈ fragment, ∀ c ∈ text, urlPart "%:@/?" c = true

namespace Url

/-- A part of a URL with the character in front that announces it. -/
def announced (c : Nat) (part : Option Text) : Text :=
  part.elim [] fun text => c :: text

def login (url : Url) : Text := url.userinfo.elim [] fun info => info ++ [at_]

def hostPort (url : Url) : Text := url.host ++ announced colon url.port

def rest (url : Url) : Text :=
  url.path ++ (announced '?'.toNat url.query ++
    announced '#'.toNat url.fragment)

def text (url : Url) : Text :=
  url.scheme ++ (points "://" ++ (url.login ++ (url.hostPort ++ url.rest)))

end Url

/-- What a report may tell of a URL is the same. -/
structure SameEndpoint (first second : Url) : Prop where
  scheme : first.scheme = second.scheme
  host : first.host = second.host
  port : first.port = second.port

/-! ## The characters of a URL -/

section characters

variable {extra chars : String} {c : Nat} {url : Url}

theorem oneOf_iff : oneOf chars c = true ↔ c ∈ points chars := by
  rw [oneOf, List.contains_iff_mem]

theorem ascii_of_oneOf
    (ascii : ∀ d ∈ points chars, d < 128)
    (here : oneOf chars c = true) :
    c < 128 :=
  ascii c (oneOf_iff.mp here)

theorem ascii_of_isAlphanumeric
    (here : isAlphanumeric c = true) :
    c < 128 := by
  simp [isAlphanumeric, isLetter, isDigit, between] at here
  omega

theorem ascii_of_isSchemeChar
    (here : isSchemeChar c = true) :
    c < 128 := by
  rw [isSchemeChar, Bool.or_eq_true] at here
  rcases here with letter | other
  · exact ascii_of_isAlphanumeric letter
  · exact ascii_of_oneOf (by decide) other

theorem ascii_of_urlPart
    (ascii : ∀ d ∈ points extra, d < 128)
    (here : urlPart extra c = true) :
    c < 128 := by
  simp only [urlPart, Bool.or_eq_true, beq_iff_eq] at here
  rcases here with (((letter | mark) | delimiter) | rfl) | other
  · exact ascii_of_isAlphanumeric letter
  · exact ascii_of_oneOf (by decide) mark
  · exact ascii_of_oneOf (by decide) delimiter
  · decide
  · exact ascii_of_oneOf ascii other

/-- A property of the characters of a part is one of finitely many. -/
theorem kind_of_urlPart
    {kind : Nat → Prop}
    (ascii : ∀ d ∈ points extra, d < 128)
    (kinds : ∀ d < 128, urlPart extra d = true → kind d)
    (here : urlPart extra c = true) :
    kind c :=
  kinds c (ascii_of_urlPart ascii here) here

theorem urlPart_mono
    {fewer more : String}
    (subset : ∀ d ∈ points fewer, d ∈ points more)
    (here : urlPart fewer c = true) :
    urlPart more c = true := by
  simp only [urlPart, Bool.or_eq_true, beq_iff_eq, oneOf_iff] at here ⊢
  exact here.imp_right (subset c)

theorem urlPart_of_isDigit
    (here : isDigit c = true) :
    urlPart extra c = true := by
  simp [urlPart, isAlphanumeric, here]

theorem urlPart_host
    (member : c ∈ url.host) :
    urlPart "%:[]" c = true := by
  rcases url.host_chars with name | ⟨address, same, inner⟩
  · exact urlPart_mono (by decide) (name c member)
  · rw [same] at member
    rcases List.mem_cons.mp member with rfl | member
    · decide
    · rcases List.mem_append.mp member with member | member
      · exact urlPart_mono (by decide) (inner c member)
      · obtain rfl := List.mem_singleton.mp member
        decide

theorem mem_announced
    {d : Nat}
    {part : Option Text}
    (member : c ∈ Url.announced d part) :
    c = d ∨ ∃ text ∈ part, c ∈ text := by
  cases part with
  | none => cases member
  | some text =>
      exact (List.mem_cons.mp member).imp_right fun inside =>
        ⟨text, rfl, inside⟩

theorem urlPart_hostPort
    (member : c ∈ url.hostPort) :
    urlPart "%:[]" c = true := by
  rcases List.mem_append.mp member with host | port
  · exact urlPart_host host
  · rcases mem_announced port with rfl | ⟨digits, known, inside⟩
    · decide
    · exact urlPart_of_isDigit (url.port_chars digits known c inside)

theorem urlPart_login
    (member : c ∈ url.login) :
    urlPart "%:@" c = true := by
  unfold Url.login at member
  cases known : url.userinfo with
  | none =>
      rw [known] at member
      cases member
  | some info =>
      rw [known] at member
      rcases List.mem_append.mp member with inside | last
      · exact urlPart_mono (by decide) (url.userinfo_chars info known c inside)
      · obtain rfl := List.mem_singleton.mp last
        decide

theorem urlPart_rest
    (member : c ∈ url.rest) :
    urlPart "%:@/?#" c = true := by
  rcases List.mem_append.mp member with path | member
  · exact urlPart_mono (by decide) (url.path_chars c path)
  · rcases List.mem_append.mp member with query | fragment
    · rcases mem_announced query with rfl | ⟨text, known, inside⟩
      · decide
      · exact urlPart_mono (by decide) (url.query_chars text known c inside)
    · rcases mem_announced fragment with rfl | ⟨text, known, inside⟩
      · decide
      · exact urlPart_mono (by decide) (url.fragment_chars text known c inside)

/-- What follows the scheme. -/
theorem urlPart_body
    (member : c ∈ url.login ++ (url.hostPort ++ url.rest)) :
    urlPart "%:@/?#[]" c = true := by
  rcases List.mem_append.mp member with login | member
  · exact urlPart_mono (by decide) (urlPart_login login)
  · rcases List.mem_append.mp member with host | rest
    · exact urlPart_mono (by decide) (urlPart_hostPort host)
    · exact urlPart_mono (by decide) (urlPart_rest rest)

/-- Only the apostrophe ends a match inside a URL. -/
theorem isUrlChar_of_body
    (plain : apostrophe ∉ url.text)
    (member : c ∈ url.login ++ (url.hostPort ++ url.rest)) :
    isUrlChar c = true := by
  have kind : isUrlChar c = true ∨ c = apostrophe :=
    @kind_of_urlPart _ _ (fun d => isUrlChar d = true ∨ d = apostrophe)
      (by decide) (by decide) (urlPart_body member)
  refine kind.resolve_right ?_
  rintro rfl
  exact plain (List.mem_append_right _ (List.mem_append_right _ member))

end characters

/-! ## The match of a URL -/

section match_

variable
  {python : Interpreter}
  {url first second : Url}
  {before after : Text}

theorem isSpace_not_word
    {c : Nat}
    (space : isSpace c = true) :
    isWord python c = false := by
  rw [isWord, python.alnum_space c space, Bool.false_or]
  refine beq_eq_false_iff_ne.mpr ?_
  rintro rfl
  cases space

theorem isLetter_word
    {c : Nat}
    (letter : isLetter c = true) :
    isWord python c = true := by
  have ascii : c < 128 := ascii_of_isAlphanumeric (by simp [isAlphanumeric, letter])
  rw [isWord, python.alnum_ascii c ascii, letter]
  rfl

/-- What ends at a character of another kind. -/
theorem takeWhile_append_stop
    {kind : Nat → Bool}
    {taken rest : Text}
    (all : ∀ c ∈ taken, kind c = true)
    (stops : rest.head?.all (fun c => !kind c) = true) :
    (taken ++ rest).takeWhile kind = taken := by
  rw [List.takeWhile_append_of_pos all]
  cases rest with
  | nil => simp
  | cons c rest =>
      have other : kind c = false := by simpa using stops
      simp [other]

theorem find?_exactly
    {last : Option Nat}
    {literal : String}
    {rest : Text} :
    (exactly literal).find? last (points literal ++ rest) =
      some ⟨points literal, []⟩ :=
  find?_literal fun c : Nat => beq_self_eq_true c

theorem exists_scheme (url : Url) :
    ∃ letter tail, url.scheme = letter :: tail ∧ isLetter letter = true := by
  have starts := url.scheme_letter
  cases known : url.scheme with
  | nil =>
      rw [known] at starts
      cases starts
  | cons letter tail =>
      rw [known] at starts
      exact ⟨letter, tail, rfl, starts⟩

/-- The authority and what follows it, up to the end of the match. -/
theorem find?_body
    {last : Option Nat}
    (plain : apostrophe ∉ url.text)
    (stops : after.head?.all isSpace = true) :
    (Pattern.many 0 isUrlChar).find? last
        ((url.login ++ (url.hostPort ++ url.rest)) ++ after) =
      some ⟨url.login ++ (url.hostPort ++ url.rest), []⟩ := by
  rw [find?_many]
  congr 2
  refine takeWhile_append_stop (fun c => isUrlChar_of_body plain) ?_
  cases after with
  | nil => rfl
  | cons c after =>
      have space : isSpace c = true := stops
      simp [isUrlChar, space]

/-- A URL without an apostrophe is matched as a whole. -/
theorem find?_urlPattern
    {last : Option Nat}
    (plain : apostrophe ∉ url.text)
    (start : last.all isSpace = true)
    (stops : after.head?.all isSpace = true) :
    (urlPattern python).find? last (url.text ++ after) =
      some ⟨url.text, []⟩ := by
  obtain ⟨letter, tail, scheme, isLetter⟩ := exists_scheme url
  have wordBefore : last.any (isWord python) = false := by
    cases last with
    | none => rfl
    | some c => exact isSpace_not_word start
  have tailMatch : ∀ last, (Pattern.many 0 isSchemeChar).find? last
      (tail ++ (points "://" ++ ((url.login ++ (url.hostPort ++ url.rest)) ++
        after))) = some ⟨tail, []⟩ := by
    intro last
    rw [find?_many]
    congr 2
    exact takeWhile_append_stop (fun c member =>
      url.scheme_chars c (scheme ▸ List.mem_cons_of_mem _ member)) rfl
  have separated : ∀ last, (Pattern.seq (exactly "://")
      (.many 0 isUrlChar)).find? last (points "://" ++ ((url.login ++
        (url.hostPort ++ url.rest)) ++ after)) =
      some ⟨points "://" ++ (url.login ++ (url.hostPort ++ url.rest)), []⟩ := by
    intro last
    refine find?_seq find?_exactly ?_
    rw [List.drop_left]
    exact find?_body plain stops
  have schemed : ∀ last, (Pattern.seq (.many 0 isSchemeChar) (.seq
      (exactly "://") (.many 0 isUrlChar))).find? last (tail ++ (points "://" ++
        ((url.login ++ (url.hostPort ++ url.rest)) ++ after))) =
      some ⟨tail ++ (points "://" ++
        (url.login ++ (url.hostPort ++ url.rest))), []⟩ := by
    intro last
    refine find?_seq (tailMatch last) ?_
    rw [List.drop_left]
    exact separated _
  have whole : url.text ++ after = letter :: (tail ++ (points "://" ++
      ((url.login ++ (url.hostPort ++ url.rest)) ++ after))) := by
    simp [Url.text, scheme]
  have taken : url.text = letter :: (tail ++ (points "://" ++
      (url.login ++ (url.hostPort ++ url.rest)))) := by
    simp [Url.text, scheme]
  rw [whole, taken]
  exact find?_seq (find?_boundary wordBefore (isLetter_word isLetter))
    (find?_seq (find?_one isLetter) (schemed _))

theorem isSpace_of_exactly
    {literal : String}
    (printed : ∀ c ∈ points literal, isSpace c = false) :
    (exactly literal).Within fun c => isSpace c = false := by
  refine within_literal fun c member d same => ?_
  obtain rfl := beq_iff_eq.mp same
  exact printed c member

/-- A match has no white space in it. -/
theorem isSpace_of_urlPattern :
    (urlPattern python).Within fun c => isSpace c = false := by
  refine ⟨trivial, ?_, ?_, isSpace_of_exactly (by decide), ?_⟩
  · intro c letter
    exact (by decide : ∀ d < 128, isLetter d = true → isSpace d = false) c
      (ascii_of_isAlphanumeric (by simp [isAlphanumeric, letter])) letter
  · intro c schemeChar
    exact (by decide : ∀ d < 128, isSchemeChar d = true → isSpace d = false) c
      (ascii_of_isSchemeChar schemeChar) schemeChar
  · intro c urlChar
    simp only [isUrlChar, Bool.not_eq_true', Bool.or_eq_false_iff] at urlChar
    exact urlChar.1.1.1.1

/-- A URL is rewritten as a whole. -/
theorem subFrom_text
    {last : Option Nat}
    (plain : apostrophe ∉ url.text)
    (start : last.all isSpace = true)
    (stops : after.head?.all isSpace = true)
    (rewritten : Match Nat → Text) :
    ∃ later,
      (urlPattern python).subFrom rewritten last 0 (url.text ++ after) =
        rewritten ⟨url.text, []⟩ ++
          (urlPattern python).subFrom rewritten later 0 after := by
  have found := @find?_urlPattern python url after last plain start stops
  obtain ⟨letter, tail, scheme, _⟩ := exists_scheme url
  have taken : url.text = letter :: (tail ++ (points "://" ++
      (url.login ++ (url.hostPort ++ url.rest)))) := by
    simp [Url.text, scheme]
  rw [taken] at found ⊢
  exact ⟨_, subFrom_of_find? found⟩

/-- Around a URL the text is rewritten as if the URL were not there. -/
theorem exists_sub_around
    (start : before.getLast?.all isSpace = true)
    (stops : after.head?.all isSpace = true)
    (rewritten : Match Nat → Text) :
    ∃ front back, ∀ url : Url, apostrophe ∉ url.text →
      (urlPattern python).sub rewritten (before ++ (url.text ++ after)) =
        front ++ (rewritten ⟨url.text, []⟩ ++ back) := by
  have within := @isSpace_of_urlPattern python
  -- What follows a match starts with white space, if with anything.
  have behind : ∃ back, ∀ last,
      (urlPattern python).subFrom rewritten last 0 after = back := by
    cases after with
    | nil => exact ⟨[], fun _ => rfl⟩
    | cons c after =>
        have space : isSpace c = true := stops
        exact ⟨_, fun _ => subFrom_stop within (by simp [space])⟩
  obtain ⟨back, behind⟩ := behind
  have url : ∀ last : Option Nat, last.all isSpace = true →
      ∀ url : Url, apostrophe ∉ url.text →
        (urlPattern python).subFrom rewritten last 0 (url.text ++ after) =
          rewritten ⟨url.text, []⟩ ++ back := by
    intro last start url plain
    obtain ⟨later, same⟩ := subFrom_text plain start stops rewritten
    rw [same, behind]
  rcases List.eq_nil_or_concat before with rfl | ⟨earlier, c, rfl⟩
  · exact ⟨[], back, url none rfl⟩
  · have space : isSpace c = true := by
      rw [List.concat_eq_append, List.getLast?_concat] at start
      exact start
    refine ⟨(urlPattern python).subFrom rewritten none 0 (earlier ++ [c]),
      back, fun other plain => ?_⟩
    rw [List.concat_eq_append, List.append_assoc, List.singleton_append]
    refine (subFrom_append within (by simp [space]) (Nat.zero_le _)).trans ?_
    rw [url (some c) space other plain]

end match_

/-! ## The endpoint of a URL -/

section endpoint

variable {python : Interpreter} {url first second : Url}

theorem colon_of_scheme
    {c : Nat}
    (member : c ∈ url.scheme) :
    c ≠ colon := by
  have schemeChar := url.scheme_chars c member
  exact (by decide : ∀ d < 128, isSchemeChar d = true → d ≠ colon) c
    (ascii_of_isSchemeChar schemeChar) schemeChar

theorem partitionAt_of_not_mem
    {separator : Nat}
    {taken rest : Text}
    (absent : ∀ c ∈ taken, c ≠ separator) :
    partitionAt separator (taken ++ separator :: rest) = (taken, rest) := by
  have all : ∀ c ∈ taken, decide (c ≠ separator) = true :=
    fun c member => decide_eq_true (absent c member)
  rw [partitionAt, List.takeWhile_append_of_pos all,
    List.dropWhile_append_of_pos all]
  simp

/-- The scheme is what stands before the colon. -/
theorem partitionAt_text (url : Url) :
    partitionAt colon url.text = (url.scheme,
      points "//" ++ (url.login ++ (url.hostPort ++ url.rest))) :=
  partitionAt_of_not_mem fun _ => colon_of_scheme

/-- The authority ends where the path, the query or the fragment begins. -/
theorem takeWhile_authority (url : Url) :
    (url.login ++ (url.hostPort ++ url.rest)).takeWhile
        (fun c => !oneOf "/?#" c) = url.login ++ url.hostPort := by
  rw [← List.append_assoc]
  apply takeWhile_append_stop
  · intro c member
    rcases List.mem_append.mp member with login | host
    · exact @kind_of_urlPart _ _ (fun d => (!oneOf "/?#" d) = true)
        (by decide) (by decide) (urlPart_login login)
    · exact @kind_of_urlPart _ _ (fun d => (!oneOf "/?#" d) = true)
        (by decide) (by decide) (urlPart_hostPort host)
  · have root := url.path_root
    unfold Url.rest
    cases path : url.path with
    | cons c path =>
        rw [path] at root
        have slash : c = '/'.toNat := by simpa [oneOf, points] using root
        subst slash
        rfl
    | nil =>
        cases url.query with
        | some query => rfl
        | none =>
            cases url.fragment with
            | some fragment => rfl
            | none => rfl

theorem login_of_opening
    {c : Nat}
    (member : c ∈ url.login) :
    c ≠ opening ∧ c ≠ closing :=
  @kind_of_urlPart _ _ (fun d => d ≠ opening ∧ d ≠ closing)
    (by decide) (by decide) (urlPart_login member)

theorem partitionAt_login
    {text : Text} :
    (partitionAt opening (url.login ++ text)).2 =
      (partitionAt opening text).2 := by
  have all : ∀ c ∈ url.login, decide (c ≠ opening) = true :=
    fun c member => decide_eq_true (login_of_opening member).1
  rw [partitionAt, List.dropWhile_append_of_pos all]
  rfl

theorem contains_login
    {bracket : Nat}
    {text : Text}
    (absent : ∀ c ∈ url.login, c ≠ bracket) :
    (url.login ++ text).contains bracket = text.contains bracket := by
  have none_ : bracket ∉ url.login := fun member => absent _ member rfl
  rw [Bool.eq_iff_iff, List.contains_iff_mem, List.contains_iff_mem,
    List.mem_append]
  exact or_iff_right none_

theorem at_of_hostPort
    {c : Nat}
    (member : c ∈ url.hostPort) :
    c ≠ at_ :=
  @kind_of_urlPart _ _ (fun d => d ≠ at_) (by decide) (by decide)
    (urlPart_hostPort member)

/-- The userinfo ends at the last `@`. -/
theorem afterLast_authority (url : Url) :
    afterLast at_ (url.login ++ url.hostPort) = url.hostPort := by
  have absent : ∀ c ∈ url.hostPort, decide (c ≠ at_) = true :=
    fun c member => decide_eq_true (at_of_hostPort member)
  unfold afterLast Url.login
  cases url.userinfo with
  | none => exact List.rtakeWhile_eq_self_iff.mpr absent
  | some info =>
      rw [Option.elim_some, List.append_assoc, List.singleton_append]
      unfold List.rtakeWhile
      rw [List.reverse_append, List.reverse_cons, List.append_assoc,
        List.singleton_append, List.takeWhile_append_of_pos
          (by simpa using absent)]
      simp

theorem hostinfo_authority (url : Url) :
    hostinfo (url.login ++ url.hostPort) = hostinfo url.hostPort := by
  have bare : afterLast at_ url.hostPort = url.hostPort :=
    List.rtakeWhile_eq_self_iff.mpr fun c member =>
      decide_eq_true (at_of_hostPort member)
  unfold hostinfo
  rw [afterLast_authority, bare]

theorem ascii_authority
    {c : Nat}
    (member : c ∈ url.login ++ url.hostPort) :
    c < 128 := by
  rcases List.mem_append.mp member with login | host
  · exact ascii_of_urlPart (by decide) (urlPart_login login)
  · exact ascii_of_urlPart (by decide) (urlPart_hostPort host)

/-- What `urlsplit` refuses is told by the host and the port. -/
theorem urlsplit_text (url : Url) :
    urlsplit python url.text =
      if url.hostPort.contains opening ≠ url.hostPort.contains closing then
        none
      else if url.hostPort.contains opening ∧ !python.bracketedHost
          (partitionAt closing (partitionAt opening url.hostPort).2).1 then
        none
      else some ⟨python.lower url.scheme, url.login ++ url.hostPort⟩ := by
  have known : colon ∈ url.text := by simp [Url.text, points, colon]
  have legal : colon ∈ url.text ∧ url.scheme.head?.any isLetter ∧
      url.scheme.all isSchemeChar :=
    ⟨known, url.scheme_letter, List.all_eq_true.mpr url.scheme_chars⟩
  have ascii : python.netloc (url.login ++ url.hostPort) = true :=
    python.netloc_ascii _ fun c => ascii_authority
  have slashes : ∀ text : Text, (points "//" ++ text).take 2 = points "//" :=
    fun _ => rfl
  have behind : ∀ text : Text, (points "//" ++ text).drop 2 = text :=
    fun _ => rfl
  unfold urlsplit
  simp only [partitionAt_text]
  rw [if_pos legal]
  simp only [slashes, behind, takeWhile_authority, ascii, if_true,
    partitionAt_login,
    contains_login (fun c member => (login_of_opening member).1),
    contains_login (fun c member => (login_of_opening member).2)]
  rfl

/-- A report on a URL has its scheme, its host and its port. -/
theorem redactedUrl_text
    {held : Text} :
    redactedUrl python ⟨url.text, held⟩ =
      if url.hostPort.contains opening ≠ url.hostPort.contains closing then
        redactedUrlText
      else if url.hostPort.contains opening ∧ !python.bracketedHost
          (partitionAt closing (partitionAt opening url.hostPort).2).1 then
        redactedUrlText
      else endpointText python ⟨python.lower url.scheme, url.hostPort⟩ := by
  have ports : port (url.login ++ url.hostPort) = port url.hostPort := by
    rw [port, port, hostinfo_authority]
  have hosts : hostname python (url.login ++ url.hostPort) =
      hostname python url.hostPort := by
    rw [hostname, hostname, hostinfo_authority]
  have same : endpointText python
      ⟨python.lower url.scheme, url.login ++ url.hostPort⟩ =
        endpointText python ⟨python.lower url.scheme, url.hostPort⟩ := by
    unfold endpointText
    simp only [ports, hosts]
  rw [redactedUrl, urlsplit_text, ← same]
  split_ifs <;> rfl

theorem redactedUrl_congr
    {held : Text}
    (same : SameEndpoint first second) :
    redactedUrl python ⟨first.text, held⟩ =
      redactedUrl python ⟨second.text, held⟩ := by
  have hostPort : first.hostPort = second.hostPort := by
    rw [Url.hostPort, Url.hostPort, same.host, same.port]
  rw [redactedUrl_text, redactedUrl_text, hostPort, same.scheme]

end endpoint

/-! ## The apostrophe -/

section apostrophe_

variable {python : Interpreter} {c : Nat} {text : Text}

theorem apart_of_kind
    {kind : Nat → Bool}
    (other : kind apostrophe = false) :
    ∀ c, kind c = true → c ≠ apostrophe := by
  rintro _ here rfl
  rw [other] at here
  cases here

theorem apart_of_exactly
    {literal : String}
    (other : apostrophe ∉ points literal) :
    (exactly literal).Within (· ≠ apostrophe) := by
  refine within_literal fun c member d same => ?_
  obtain rfl := beq_iff_eq.mp same
  rintro rfl
  exact other member

theorem apart_of_ignoringCase
    {literal : String}
    (other : apostrophe ∉ points literal) :
    (ignoringCase literal).Within (· ≠ apostrophe) := by
  refine within_literal fun c member => apart_of_kind ?_
  refine beq_eq_false_iff_ne.mpr ?_
  rintro rfl
  exact other member

theorem apart_of_urlPattern :
    (urlPattern python).Within (· ≠ apostrophe) :=
  ⟨trivial, apart_of_kind (by decide), apart_of_kind (by decide),
    apart_of_exactly (by decide), apart_of_kind (by decide)⟩

theorem apart_of_credentialWord : credentialWord.Within (· ≠ apostrophe) :=
  ⟨apart_of_ignoringCase (by decide), apart_of_ignoringCase (by decide),
    apart_of_ignoringCase (by decide), apart_of_ignoringCase (by decide),
    apart_of_ignoringCase (by decide), apart_of_ignoringCase (by decide),
    apart_of_ignoringCase (by decide), apart_of_ignoringCase (by decide),
    ⟨apart_of_kind (by decide), trivial⟩, apart_of_ignoringCase (by decide)⟩

/-- No pattern takes an apostrophe. -/
theorem apart_of_secretPatterns
    {secret : Secret}
    (member : secret ∈ secretPatterns python) :
    secret.pattern.Within (· ≠ apostrophe) := by
  simp only [secretPatterns, List.mem_cons, List.not_mem_nil, or_false]
    at member
  rcases member with rfl | rfl | rfl | rfl
  · exact ⟨trivial, apart_of_exactly (by decide), apart_of_kind (by decide)⟩
  · exact ⟨trivial, apart_of_exactly (by decide), apart_of_kind (by decide),
      apart_of_exactly (by decide), apart_of_kind (by decide),
      apart_of_exactly (by decide), apart_of_kind (by decide)⟩
  · exact ⟨trivial, ⟨apart_of_ignoringCase (by decide),
      apart_of_ignoringCase (by decide)⟩, apart_of_kind (by decide),
      apart_of_kind (by decide)⟩
  · exact ⟨trivial, ⟨apart_of_kind (by decide), apart_of_credentialWord,
      apart_of_kind (by decide)⟩, apart_of_kind (by decide),
      apart_of_kind (by decide), apart_of_kind (by decide),
      apart_of_kind (by decide)⟩

/-- No replacement puts an apostrophe in. -/
theorem apart_of_replacement
    {secret : Secret}
    {found : Match Nat}
    (member : secret ∈ secretPatterns python)
    (apart : ∀ c ∈ found.group, c ≠ apostrophe) :
    ∀ c ∈ secret.replacement found, c ≠ apostrophe := by
  have token : ∀ c ∈ redactedToken, c ≠ apostrophe := by decide
  have value : ∀ c ∈ points "=" ++ redacted, c ≠ apostrophe := by decide
  have scheme : ∀ c ∈ points " " ++ redactedToken, c ≠ apostrophe := by decide
  simp only [secretPatterns, List.mem_cons, List.not_mem_nil, or_false]
    at member
  rcases member with rfl | rfl | rfl | rfl
  · exact token
  · exact token
  · intro c member
    have parts : c ∈ found.group ++ points " " ++ redactedToken := member
    rw [List.append_assoc] at parts
    exact (List.mem_append.mp parts).elim (apart c) (scheme c)
  · intro c member
    have parts : c ∈ found.group ++ points "=" ++ redacted := member
    rw [List.append_assoc] at parts
    exact (List.mem_append.mp parts).elim (apart c) (value c)

/-- The credentials are rewritten around an apostrophe. -/
theorem mem_rewritten_iff
    {secrets : List Secret}
    (known : ∀ secret ∈ secrets, secret ∈ secretPatterns python) :
    apostrophe ∈ secrets.foldl rewrite text ↔ apostrophe ∈ text := by
  induction secrets generalizing text with
  | nil => rfl
  | cons secret secrets inductionHypothesis =>
      have first := known secret List.mem_cons_self
      rw [List.foldl_cons, inductionHypothesis
        fun other member => known other (List.mem_cons_of_mem _ member)]
      constructor
      · intro member
        by_contra absent
        have apart : ∀ c ∈ text, c ≠ apostrophe := by
          rintro _ inside rfl
          exact absent inside
        exact subFrom_keeps (fun found _ group =>
          apart_of_replacement first group) apart _ member rfl
      · exact fun member => mem_subFrom (apart_of_secretPatterns first)
          (by simp) member

theorem mem_printed_iff :
    apostrophe ∈ text.map (fun c =>
      if python.printable c then c else ' '.toNat) ↔ apostrophe ∈ text := by
  have printed : python.printable apostrophe = true :=
    python.printable_ascii apostrophe (by decide)
  rw [List.mem_map]
  constructor
  · rintro ⟨c, member, same⟩
    split at same
    · exact same ▸ member
    · cases same
  · exact fun member => ⟨apostrophe, member, by rw [if_pos printed]⟩

/-- The words of a text are its characters other than white space. -/
theorem exists_word_iff :
    (∃ word ∈ words text, c ∈ word) ↔ c ∈ text ∧ isSpace c = false := by
  induction text with
  | nil => simp [words]
  | cons d text inductionHypothesis =>
      rw [words]
      split
      · next space =>
          rw [inductionHypothesis, List.mem_cons]
          constructor
          · exact fun ⟨member, other⟩ => ⟨Or.inr member, other⟩
          · rintro ⟨rfl | member, other⟩
            · rw [space] at other
              cases other
            · exact ⟨member, other⟩
      · next printed =>
          have other : isSpace d = false := Bool.eq_false_iff.mpr printed
          have whole : c ∈ d :: text ∧ isSpace c = false ↔
              c = d ∨ ∃ word ∈ words text, c ∈ word := by
            rw [inductionHypothesis, List.mem_cons]
            constructor
            · rintro ⟨same | member, space⟩
              · exact Or.inl same
              · exact Or.inr ⟨member, space⟩
            · rintro (rfl | ⟨member, space⟩)
              · exact ⟨Or.inl rfl, other⟩
              · exact ⟨Or.inr member, space⟩
          rw [whole]
          split
          · simp
          · cases words text with
            | nil => simp
            | cons word later => simp [or_assoc]

theorem mem_intercalate_iff
    {separator : Text}
    {parts : List Text}
    (other : c ∉ separator) :
    c ∈ separator.intercalate parts ↔ ∃ part ∈ parts, c ∈ part := by
  induction parts with
  | nil => simp
  | cons part parts inductionHypothesis =>
      cases parts with
      | nil => simp
      | cons next parts =>
          rw [List.intercalate_cons_cons, List.mem_append, List.mem_append,
            inductionHypothesis]
          simp [other]

/-- An apostrophe beside a URL is reported, and no other is made up. -/
theorem mem_cleaned_iff :
    apostrophe ∈ cleaned python text ↔
      apostrophe ∈ (urlPattern python).sub (redactedUrl python) text := by
  unfold cleaned
  rw [mem_intercalate_iff (by decide), exists_word_iff,
    and_iff_left (by decide), mem_printed_iff,
    mem_rewritten_iff fun _ => id]

theorem mem_cleaned (member : apostrophe ∈ text) :
    apostrophe ∈ cleaned python text :=
  mem_cleaned_iff.mpr (mem_subFrom apart_of_urlPattern (by simp) member)

theorem apart_of_lower
    (ascii : ∀ c ∈ text, c < 128)
    (apart : apostrophe ∉ text) :
    apostrophe ∉ python.lower text := by
  rw [python.lower_ascii text ascii, List.mem_map]
  rintro ⟨c, member, same⟩
  unfold asciiLower at same
  split at same
  · next upper =>
      simp [between, apostrophe] at upper same
      omega
  · exact apart (same ▸ member)

theorem subset_partitionAt {separator : Nat} :
    (partitionAt separator text).1 ⊆ text ∧
      (partitionAt separator text).2 ⊆ text :=
  ⟨(List.takeWhile_sublist _).subset,
    fun _ member => (List.dropWhile_sublist _).subset
      (List.mem_of_mem_tail member)⟩

/-- The host is a part of the authority. -/
theorem subset_hostinfo : (hostinfo text).1 ⊆ text := by
  have last : afterLast at_ text ⊆ text :=
    (List.rtakeWhile_suffix _ _).subset
  unfold hostinfo
  dsimp only
  split
  · exact fun c member => last (subset_partitionAt.2
      (subset_partitionAt.1 member))
  · exact fun c member => last (subset_partitionAt.1 member)

theorem apart_of_hostname
    (ascii : ∀ c ∈ text, c < 128)
    (apart : apostrophe ∉ text) :
    apostrophe ∉ hostname python text := by
  have name : (partitionAt percent (hostinfo text).1).1 ⊆ text :=
    fun c member => subset_hostinfo (subset_partitionAt.1 member)
  intro member
  rcases List.mem_append.mp member with lower | zone
  · exact apart_of_lower (fun c inside => ascii c (name inside))
      (fun inside => apart (name inside)) lower
  · exact apart (subset_hostinfo (List.mem_of_mem_drop zone))

/-- What is left of a URL without an apostrophe has none. -/
theorem apart_of_redactedUrl
    {url : Url}
    {held : Text}
    (plain : apostrophe ∉ url.text) :
    apostrophe ∉ redactedUrl python ⟨url.text, held⟩ := by
  have schemeAscii : ∀ c ∈ url.scheme, c < 128 :=
    fun c member => ascii_of_isSchemeChar (url.scheme_chars c member)
  have schemePlain : apostrophe ∉ url.scheme :=
    fun member => plain (List.mem_append_left _ member)
  have hostAscii : ∀ c ∈ url.hostPort, c < 128 :=
    fun c member => ascii_of_urlPart (by decide) (urlPart_hostPort member)
  have hostPlain : apostrophe ∉ url.hostPort := by
    refine fun member => plain ?_
    simp [Url.text, member]
  have fixed : apostrophe ∉ redactedUrlText := by decide
  have slashes : apostrophe ∉ points "://" := by decide
  have ending : apostrophe ∉ points "/" ++ redacted := by decide
  have digits : ∀ port, apostrophe ∉
      colon :: (Nat.toDigits 10 port).map Char.toNat := by
    intro port member
    rcases List.mem_cons.mp member with same | member
    · cases same
    · obtain ⟨digit, known, same⟩ := List.mem_map.mp member
      have isDigit := Nat.isDigit_of_mem_toDigits (by decide) (by decide) known
      have zero : 48 ≤ digit.toNat := (Bool.and_eq_true_iff.mp isDigit).1 |>
        of_decide_eq_true
      rw [same] at zero
      cases (by decide : ¬48 ≤ apostrophe) zero
  rw [redactedUrl_text]
  split_ifs
  · exact fixed
  · exact fixed
  · unfold endpointText
    split
    · exact fixed
    · next shown _ =>
        dsimp only
        split_ifs
        · exact fixed
        · intro member
          simp only [List.mem_append] at member
          rcases member with ((((scheme | slash) | host) | port) | slash) | mark
          · exact apart_of_lower schemeAscii schemePlain scheme
          · exact slashes slash
          · exact apart_of_hostname hostAscii hostPlain host
          · cases shown with
            | none => cases port
            | some shown => exact digits shown port
          · exact ending (List.mem_append_left _ slash)
          · exact ending (List.mem_append_right _ mark)

end apostrophe_

/-! ## What is disclosed -/

/-- White space or the end of the text, on both sides. -/
structure Delimited (before after : Text) : Prop where
  before : before.getLast?.all isSpace = true
  after : after.head?.all isSpace = true

/-- The same exception, but for the URL in its text. -/
inductive Alike (first second : Url) : Link → Link → Prop
  | refl (link : Link) : Alike first second link link
  | url
      {before after : Text}
      (id : Nat)
      (name : Text)
      (delimited : Delimited before after) :
      Alike first second ⟨id, name, before ++ (first.text ++ after)⟩
        ⟨id, name, before ++ (second.text ++ after)⟩

/-- No report tells one URL from the other. -/
structure Indistinct (python : Interpreter) (first second : Url) : Prop where
  text : ∀ limit before after, Delimited before after →
    sanitizedText python limit (before ++ (first.text ++ after)) =
      sanitizedText python limit (before ++ (second.text ++ after))
  event : ∀ kind error errorToo causes causesToo,
    Alike first second error errorToo →
      List.Forall₂ (Alike first second) causes causesToo →
        failureEvent python kind error causes =
          failureEvent python kind errorToo causesToo

section disclosure

variable {python : Interpreter} {first second : Url}

/-- Every link of a chain is reported alike. -/
theorem failureParts_alike
    (text : ∀ limit before after, Delimited before after →
      sanitizedText python limit (before ++ (first.text ++ after)) =
        sanitizedText python limit (before ++ (second.text ++ after)))
    {chain chainToo : List Link}
    (alike : List.Forall₂ (Alike first second) chain chainToo)
    (seen : List Nat)
    (parts : List Text) :
    failureParts python seen parts chain =
      failureParts python seen parts chainToo := by
  induction alike generalizing seen parts with
  | nil => rfl
  | @cons link linkToo chain chainToo here later inductionHypothesis =>
      have same : link.id = linkToo.id ∧ link.name = linkToo.name ∧
          sanitizedText python messageLimit link.text =
            sanitizedText python messageLimit linkToo.text := by
        cases here with
        | refl => exact ⟨rfl, rfl, rfl⟩
        | url id name delimited => exact ⟨rfl, rfl, text _ _ _ delimited⟩
      obtain ⟨id, name, detail⟩ := same
      rw [failureParts, failureParts, id, name, detail]
      split
      · exact inductionHypothesis _ _
      · rfl

theorem indistinct_of_text
    (text : ∀ limit before after, Delimited before after →
      sanitizedText python limit (before ++ (first.text ++ after)) =
        sanitizedText python limit (before ++ (second.text ++ after))) :
    Indistinct python first second := by
  refine ⟨text, ?_⟩
  intro kind error errorToo causes causesToo alike causedAlike
  have name : error.name = errorToo.name := by cases alike <;> rfl
  have parts := failureParts_alike text (.cons alike causedAlike) [] []
  rw [failureEvent, failureEvent, failureMessage, failureMessage, name, parts]

theorem cleaned_congr
    {before after : Text}
    (same : SameEndpoint first second)
    (delimited : Delimited before after)
    (plain : apostrophe ∉ first.text)
    (plainToo : apostrophe ∉ second.text) :
    cleaned python (before ++ (first.text ++ after)) =
      cleaned python (before ++ (second.text ++ after)) := by
  obtain ⟨front, back, around⟩ := @exists_sub_around python before after
    delimited.before delimited.after (redactedUrl python)
  unfold cleaned
  rw [around first plain, around second plainToo, redactedUrl_congr same]

/-- Alone in a text, a URL without an apostrophe is reported without one. -/
theorem apart_of_cleaned
    {url : Url}
    (plain : apostrophe ∉ url.text) :
    apostrophe ∉ cleaned python url.text := by
  obtain ⟨_, alone⟩ := @subFrom_text python url [] none plain rfl rfl
    (redactedUrl python)
  rw [List.append_nil] at alone
  rw [mem_cleaned_iff, Pattern.sub, alone]
  simpa [Pattern.subFrom] using apart_of_redactedUrl plain

/-- Beside a URL of its endpoint that has no apostrophe, a URL is disclosed as
no more than its endpoint exactly when it has no apostrophe either. -/
theorem indistinct_iff
    (python : Interpreter)
    (first second : Url)
    (same : SameEndpoint first second)
    (plain : apostrophe ∉ second.text) :
    Indistinct python first second ↔ apostrophe ∉ first.text := by
  constructor
  · intro indistinct member
    let limit := (cleaned python first.text).length +
      (cleaned python second.text).length
    have reported := indistinct.text limit [] [] ⟨rfl, rfl⟩
    simp only [List.nil_append, List.append_nil, sanitizedText] at reported
    rw [if_neg (by omega), if_neg (by omega)] at reported
    exact apart_of_cleaned plain (reported ▸ mem_cleaned member)
  · intro plainToo
    refine indistinct_of_text fun limit before after delimited => ?_
    rw [sanitizedText, sanitizedText,
      cleaned_congr same delimited plainToo plain]

/-- An interpreter that knows only ASCII. -/
def asciiInterpreter : Interpreter where
  alnum c := isLetter c || isDigit c
  printable c := 0x20 ≤ c && c ≤ 0x7e
  lower text := text.map asciiLower
  bracketedHost _ := true
  netloc _ := true
  alnum_ascii := fun _ _ => rfl
  alnum_space := by
    intro c space
    simp [isSpace, isLetter, isDigit, between] at *
    omega
  printable_ascii := fun _ _ => rfl
  lower_ascii := fun _ _ => rfl
  netloc_ascii := fun _ _ => rfl

/-- A URL of one host with this login and this path. -/
def hubUrl (userinfo : Option Text) (path : Text)
    (userinfoChars : ∀ info ∈ userinfo, ∀ c ∈ info, urlPart "%:" c = true)
    (pathRoot : path.head?.all (oneOf "/") = true)
    (pathChars : ∀ c ∈ path, urlPart "%:@/" c = true) : Url where
  scheme := points "https"
  userinfo := userinfo
  host := points "hub.example"
  port := none
  path := path
  query := none
  fragment := none
  scheme_letter := by decide
  scheme_chars := by decide
  userinfo_chars := userinfoChars
  host_chars := Or.inl (by decide)
  port_chars := nofun
  path_root := pathRoot
  path_chars := pathChars
  query_chars := nofun
  fragment_chars := nofun

/-- A login and a path are not disclosed. -/
theorem indistinct_sample :
    Indistinct asciiInterpreter
      (hubUrl (some (points "user:secret")) (points "/org/repo")
        (by decide) (by decide) (by decide))
      (hubUrl none [] (by decide) (by decide) (by decide)) :=
  Iff.mpr (indistinct_iff _ _ _ ⟨rfl, rfl, rfl⟩ (by decide)) (by decide)

/-- What follows an apostrophe in a path is disclosed. -/
theorem distinct_sample :
    ∃ first second : Url, SameEndpoint first second ∧
      sanitizedText asciiInterpreter messageLimit first.text ≠
        sanitizedText asciiInterpreter messageLimit second.text := by
  refine ⟨hubUrl none (points "/a" ++ apostrophe :: points "secret")
      (by decide) (by decide) (by decide),
    hubUrl none [] (by decide) (by decide) (by decide), ⟨rfl, rfl, rfl⟩, ?_⟩
  decide +kernel

end disclosure

end Redaction
end Fetcher
end ModelKeep

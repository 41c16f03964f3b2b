import AdkRust.Core.ToolCall
import AdkRust.Harness.Url

/-!
# Calls that are shown for approval

A held call as a person sees it before approving it (`approvals/prompt.rs`).

* `escapeControl`: a text with its control characters, and the format characters that would hide or reorder it,
  spelled out; `escapeControl_injective`.
* `render`: what is shown of a call.
* `bash_shows`: what two calls that look alike have in common.
* `canApprove_render`: a call that is cut is approved only after all of it was shown.
-/

namespace Adk

/-- Default byte budget of a body. -/
def renderedCallMaxBytes : Nat := 4096

/-- Most characters of a model-supplied retry reason a prompt shows. -/
def reasonMaxChars : Nat := 300

/-! ## Escapes -/

/-- A format character that hides or reorders text. -/
def isFormatting (c : Char) : Bool :=
  (0x200b ≤ c.toNat && c.toNat ≤ 0x200f) || (0x202a ≤ c.toNat && c.toNat ≤ 0x202e) ||
  (0x2066 ≤ c.toNat && c.toNat ≤ 0x2069) || c.toNat = 0xfeff

/-- The last hexadecimal digits of a number, so many of them. -/
def hexDigits : Nat → Nat → List Char
  | 0, _ => []
  | width + 1, n => hexDigits width (n / 16) ++ [Nat.digitChar (n % 16)]

def escapeChar (c : Char) : List Char :=
  if c = '\n' then "\\n".toList
  else if c = '\r' then "\\r".toList
  else if c = '\t' then "\\t".toList
  else if c = '\\' then "\\\\".toList
  else if c.toNat < 0x20 || (0x7f ≤ c.toNat && c.toNat < 0xa0) then '\\' :: 'x' :: hexDigits 2 c.toNat
  else if isFormatting c then '\\' :: 'u' :: '\x7b' :: (hexDigits 4 c.toNat ++ ['\x7d'])
  else [c]

/-- Escapes control characters, including ANSI escapes, carriage returns and bidi overrides. -/
def escapeControl (text : List Char) : List Char := text.flatMap escapeChar

example : escapeControl "ls\r; curl evil\x1b[2K".toList = "ls\\r; curl evil\\x1b[2K".toList := by decide +kernel

example : escapeControl "a\u202eb".toList = "a\\u\x7b202e\x7db".toList := by decide +kernel

/-! ## Renderings -/

/-- The isolation `bash` actually runs under. -/
inductive IsolationStatus where
  | host
  | osSandbox (enforcer : String)
  | container (image : String)
  /-- A sandbox was requested and is unavailable; commands run on the host. -/
  | degraded (requested reason : String)
deriving DecidableEq

def IsolationStatus.display : IsolationStatus → List Char
  | .host => "host (full user permissions, network)".toList
  | .osSandbox enforcer => "OS sandbox (".toList ++ enforcer.toList ++ ", no network)".toList
  | .container image => "container (".toList ++ image.toList ++ ")".toList
  | .degraded requested reason =>
    "host (full user permissions, network); requested ".toList ++ requested.toList ++ " is unavailable: ".toList ++
      reason.toList

namespace ToolConfirmationRequest

/-- An argument that is a text. -/
def arg (request : ToolConfirmationRequest) (key : String) : Option (List Char) :=
  ((request.args.get? key).bind Value.asStr).map String.toList

/-- The command of a `bash` call, empty when there is none. -/
def command (request : ToolConfirmationRequest) : List Char := (request.arg "command").getD []

/-- Whether a `bash` call asks to leave the sandbox. -/
def unsandboxed (request : ToolConfirmationRequest) : Bool := request.args.get? "unsandboxed" = some (.bool true)

def webUrl (request : ToolConfirmationRequest) : Option (List Char) :=
  if request.toolName = "web_fetch" then request.arg "url"
  else if request.toolName = "web_search" then request.arg "site"
  else none

end ToolConfirmationRequest

structure RenderedCall where
  /-- One line naming the tool and the isolation. -/
  title : List Char
  /-- Who publishes the tool: source and declaration digest. -/
  origin : List Char
  /-- The acting agent and the subject it acts for. -/
  agent : List Char
  isolation : List Char
  /-- The escaped arguments, cut to the budget. -/
  body : List Char
  truncated : Bool
  fullBody : List Char
  expanded : Bool

namespace RenderedCall

def withinBytes (maxBytes : Nat) : List Char → List Char
  | [] => []
  | c :: rest => if c.utf8Size ≤ maxBytes then c :: withinBytes (maxBytes - c.utf8Size) rest else []

def cut (text : List Char) (maxBytes : Nat) : List Char × Bool :=
  if byteLength text ≤ maxBytes then (text, false)
  else
    let shown := withinBytes maxBytes text
    (shown ++ "… [truncated: ".toList ++ Nat.toDigits 10 (byteLength shown) ++ " of ".toList ++
      Nat.toDigits 10 (byteLength text) ++ " bytes shown]".toList, true)

def titleOf (request : ToolConfirmationRequest) (isolation : IsolationStatus) : List Char :=
  let tool := escapeControl request.toolName.toList
  if request.toolName = "bash" then
    if request.unsandboxed then
      tool ++ ": unsandboxed retry on the host (full user permissions, network)".toList
    else tool ++ " on ".toList ++ isolation.display
  else tool

/-- The URL of a web call, which may lack its scheme. -/
def parsedUrl (url : List Char) : Except UrlRefusal ParsedUrl :=
  match ParsedUrl.parse url with
  | .ok parsed => .ok parsed
  | .error _ => ParsedUrl.parse ("https://".toList ++ url ++ "/".toList)

/-- Host, path and query, each on a line. -/
def urlBody (url : List Char) : List Char :=
  match parsedUrl url with
  | .ok parsed =>
    "host: ".toList ++ escapeControl parsed.host ++ "\npath: ".toList ++ escapeControl parsed.path ++
      "\nquery: ".toList ++ parsed.query.elim "(none)".toList escapeControl
  | .error refusal =>
    "url: ".toList ++ escapeControl url ++ " (refused: ".toList ++ refusal.display ++ ")".toList

section Render

variable [JsonText]

def callBody (request : ToolConfirmationRequest) : List Char :=
  if request.toolName = "bash" then "$ ".toList ++ escapeControl request.command
  else match request.webUrl with
    | some url =>
      urlBody url ++ (request.arg "query").elim [] fun query => "\nsearch: ".toList ++ escapeControl query
    | none => escapeControl (writeCanonical request.args).toList

/-- Why the model says it wants a `bash` call. -/
def reasonOf (request : ToolConfirmationRequest) : List Char :=
  if request.toolName = "bash" then
    (request.arg "reason").elim [] fun reason =>
      "\nmodel's reason: \"".toList ++ escapeControl (reason.take reasonMaxChars) ++ "\"".toList
  else []

def originOf (request : ToolConfirmationRequest) : List Char :=
  request.origin.elim "unknown origin".toList fun origin =>
    escapeControl origin.source.toList ++ " (".toList ++ origin.declarationDigest.toList ++ ")".toList

def agentOf (request : ToolConfirmationRequest) : List Char :=
  request.acting.elim "unknown agent".toList fun acting =>
    match acting.onBehalfOf with
    | some subject => acting.agent.id.asStr.toList ++ " for ".toList ++ escapeControl subject.id.toList
    | none => acting.agent.id.asStr.toList

def render (request : ToolConfirmationRequest) (isolation : IsolationStatus) (maxBytes : Nat) : RenderedCall :=
  let fullBody := callBody request ++ reasonOf request
  let (body, truncated) := cut fullBody maxBytes
  { title := titleOf request isolation
    origin := originOf request
    agent := agentOf request
    isolation := isolation.display
    body, truncated, fullBody
    expanded := false }

end Render

/-- The whole escaped body. Showing it lets a truncated call be approved. -/
def expand (call : RenderedCall) : List Char × RenderedCall := (call.fullBody, { call with expanded := true })

def wasExpanded (call : RenderedCall) : Bool := call.expanded

/-- Whether an approval of this rendering may stand: the body was shown in full. -/
def canApprove (call : RenderedCall) : Bool := !call.truncated || call.wasExpanded

/-- What is done with a rendering or a clone of it. -/
inductive Use where
  | expand
  | canApprove
deriving DecidableEq

def Use.run (call : RenderedCall) : Use → RenderedCall
  | .expand => call.expand.2
  | .canApprove => call

def after (call : RenderedCall) (uses : List Use) : RenderedCall := uses.foldl Use.run call

end RenderedCall

/-! ## Escapes are undone -/

def hexDigitValue (c : Char) : Nat := ((List.range 16).find? fun n => Nat.digitChar n = c).getD 0

def hexNumber (digits : List Char) : Nat := digits.foldl (fun n c => n * 16 + hexDigitValue c) 0

/-- The character that a text begins with, or begins with an escape of. -/
def readEscape : List Char → Option Char
  | [] => none
  | c :: rest =>
    if c ≠ '\\' then some c
    else match rest with
      | [] => none
      | kind :: digits =>
        if kind = 'n' then some '\n'
        else if kind = 'r' then some '\r'
        else if kind = 't' then some '\t'
        else if kind = 'x' then some (Char.ofNat (hexNumber (digits.take 2)))
        else if kind = 'u' then some (Char.ofNat (hexNumber ((digits.drop 1).take 4)))
        else some kind

theorem hexDigitValue_digitChar : ∀ n < 16, hexDigitValue (Nat.digitChar n) = n := by decide

@[simp] theorem length_hexDigits (width : Nat) : ∀ n, (hexDigits width n).length = width := by
  induction width with
  | zero => simp [hexDigits]
  | succ width ih => simp [hexDigits, ih]

theorem hexNumber_hexDigits (width : Nat) : ∀ n, hexNumber (hexDigits width n) = n % 16 ^ width := by
  induction width with
  | zero => simp [hexDigits, hexNumber, Nat.mod_one]
  | succ width ih =>
    intro n
    have hlast := hexDigitValue_digitChar (n % 16) (Nat.mod_lt _ (by omega))
    have hfst := ih (n / 16)
    unfold hexNumber at hfst ⊢
    rw [hexDigits, List.foldl_append, hfst, List.foldl_cons, List.foldl_nil, hlast, Nat.pow_succ,
      Nat.mul_comm (16 ^ width), Nat.mod_mul]
    omega

theorem isFormatting_lt {c : Char} (h : isFormatting c = true) : c.toNat < 16 ^ 4 := by
  simp only [isFormatting, Bool.or_eq_true, Bool.and_eq_true, decide_eq_true_eq] at h
  omega

theorem readEscape_escapeChar (c : Char) (rest : List Char) : readEscape (escapeChar c ++ rest) = some c := by
  unfold escapeChar
  split
  next h => subst h; rfl
  next =>
    split
    next h => subst h; rfl
    next =>
      split
      next h => subst h; rfl
      next =>
        split
        next h => subst h; rfl
        next hback =>
          split
          next hctl =>
            have hlt : c.toNat < 16 ^ 2 := by
              simp only [Bool.or_eq_true, Bool.and_eq_true, decide_eq_true_eq] at hctl
              omega
            have htake : (hexDigits 2 c.toNat ++ rest).take 2 = hexDigits 2 c.toNat := by
              rw [List.take_append_of_le_length (by simp), List.take_of_length_le (by simp)]
            simp only [List.cons_append, readEscape, ne_eq, not_true_eq_false, if_false, htake, hexNumber_hexDigits,
              Nat.mod_eq_of_lt hlt, Char.ofNat_toNat]
            rfl
          next =>
            split
            next hformat =>
              have hlt := isFormatting_lt hformat
              have htake : ((('\x7b' : Char) :: (hexDigits 4 c.toNat ++ ['\x7d'] ++ rest)).drop 1).take 4 =
                  hexDigits 4 c.toNat := by
                rw [List.drop_one, List.tail_cons, List.append_assoc, List.take_append_of_le_length (by simp),
                  List.take_of_length_le (by simp)]
              simp only [List.cons_append, readEscape, ne_eq, not_true_eq_false, if_false]
              rw [htake, hexNumber_hexDigits, Nat.mod_eq_of_lt hlt, Char.ofNat_toNat]
              rfl
            next => simp [readEscape, hback]

theorem escapeChar_ne_nil (c : Char) : escapeChar c ≠ [] := by
  intro hnil
  have hread := readEscape_escapeChar c []
  rw [hnil] at hread
  cases hread

/-- A text is told from its escaped form. -/
theorem escapeControl_injective : Function.Injective escapeControl := by
  apply flatMap_inj escapeChar_ne_nil
  intro c d rest h
  have hread := readEscape_escapeChar c rest
  have hread' := readEscape_escapeChar d []
  rw [List.append_nil, ← h, hread] at hread'
  exact Option.some.inj hread'

/-! ## What is never shown -/

def IsShown (c : Char) : Prop := AgentId.isControl c = false ∧ isFormatting c = false

instance (c : Char) : Decidable (IsShown c) := inferInstanceAs (Decidable (_ ∧ _))

/-- A text without control characters and without the format characters that are escaped. -/
def AllShown (text : List Char) : Prop := ∀ c ∈ text, IsShown c

instance (text : List Char) : Decidable (AllShown text) := List.decidableBAll IsShown text

variable {text : List Char} {n : Nat}

theorem AllShown.append {more : List Char} (h : AllShown text) (h' : AllShown more) : AllShown (text ++ more) := by
  intro c hc
  rcases List.mem_append.mp hc with hc | hc
  · exact h c hc
  · exact h' c hc

theorem AllShown.newline_notMem (h : AllShown text) : '\n' ∉ text := by
  intro hmem
  have hctl := (h '\n' hmem).1
  revert hctl
  decide

theorem clean_hexDigits (width : Nat) : ∀ n, AllShown (hexDigits width n) := by
  have hdgt : ∀ n < 16, IsShown (Nat.digitChar n) := by decide
  induction width with
  | zero =>
    intro n c hc
    cases hc
  | succ width ih =>
    intro n
    apply (ih (n / 16)).append
    intro c hc
    obtain rfl := List.mem_singleton.mp hc
    exact hdgt _ (Nat.mod_lt _ (by omega))

theorem clean_escapeChar (c : Char) : AllShown (escapeChar c) := by
  unfold escapeChar
  split
  next => decide
  next =>
    split
    next => decide
    next =>
      split
      next => decide
      next =>
        split
        next => decide
        next =>
          split
          next => exact @AllShown.append ['\\', 'x'] _ (by decide) (clean_hexDigits 2 _)
          next hctl =>
            split
            next =>
              apply @AllShown.append ['\\', 'u', '\x7b'] _ (by decide)
              exact (clean_hexDigits 4 _).append (by decide)
            next hformat =>
              intro d hd
              obtain rfl := List.mem_singleton.mp hd
              exact ⟨Bool.eq_false_iff.mpr hctl, Bool.eq_false_iff.mpr hformat⟩

theorem clean_escapeControl (text : List Char) : AllShown (escapeControl text) := by
  intro c hc
  obtain ⟨d, -, hd⟩ := List.mem_flatMap.mp hc
  exact clean_escapeChar d c hd

/-- A text of so many line breaks that is clean otherwise. -/
def Lined (lines : Nat) (text : List Char) : Prop :=
  AllShown (text.filter (· ≠ '\n')) ∧ text.count '\n' = lines

instance (lines : Nat) (text : List Char) : Decidable (Lined lines text) := inferInstanceAs (Decidable (_ ∧ _))

theorem AllShown.lined (h : AllShown text) : Lined 0 text :=
  ⟨fun c hc => h c (List.mem_of_mem_filter hc), List.count_eq_zero_of_not_mem h.newline_notMem⟩

theorem Lined.shown (h : Lined n text) : ∀ c ∈ text, c ≠ '\n' → IsShown c :=
  fun c hc hne => h.1 c (List.mem_filter.mpr ⟨hc, by simpa using hne⟩)

theorem Lined.append {m : Nat} {more : List Char} (h : Lined m text) (h' : Lined n more) :
    Lined (m + n) (text ++ more) := by
  constructor
  · rw [List.filter_append]
    exact h.1.append h'.1
  · rw [List.count_append, h.2, h'.2]

theorem Lined.escaped (h : Lined n text) (more : List Char) :
    Lined n (text ++ escapeControl more) := h.append (clean_escapeControl more).lined

namespace RenderedCall

/-! ## Calls that look alike -/

theorem webUrl_of_webFetch {request : ToolConfirmationRequest} (h : request.toolName = "web_fetch") :
    request.webUrl = request.arg "url" := if_pos h

theorem reasonOf_cases (request : ToolConfirmationRequest) :
    reasonOf request = [] ∨ ∃ rest, reasonOf request = '\n' :: rest := by
  unfold reasonOf
  split
  · cases request.arg "reason" with
    | none => exact .inl rfl
    | some reason => exact .inr ⟨_, rfl⟩
  · exact .inl rfl

variable {first second : ToolConfirmationRequest} {isolation : IsolationStatus} {maxBytes : Nat}

/-- Calls of `bash` with the same title leave the sandbox or stay in it. -/
theorem unsandboxed_eq (hfst : first.toolName = "bash") (hsec : second.toolName = "bash")
    (h : titleOf first isolation = titleOf second isolation) : first.unsandboxed = second.unsandboxed := by
  unfold titleOf at h
  rw [hfst, hsec] at h
  dsimp only at h
  rw [if_pos rfl, if_pos rfl] at h
  have hne : ∀ text : List Char, escapeControl "bash".toList ++
      ": unsandboxed retry on the host (full user permissions, network)".toList ≠
      escapeControl "bash".toList ++ " on ".toList ++ text := by
    intro text heq
    rw [List.append_assoc] at heq
    have htail := List.append_cancel_left heq
    cases htail
  cases hu : first.unsandboxed <;> cases hv : second.unsandboxed
  · rfl
  · rw [hu, hv] at h
    exact absurd h.symm (hne _)
  · rw [hu, hv] at h
    exact absurd h (hne _)
  · rfl

theorem query_escaped_inj {query query' : Option (List Char)}
    (h : query.elim "(none)".toList escapeControl = query'.elim "(none)".toList escapeControl) :
    query.getD "(none)".toList = query'.getD "(none)".toList := by
  have hnone : "(none)".toList = escapeControl "(none)".toList := by decide +kernel
  have hescaped : ∀ q : Option (List Char),
      q.elim "(none)".toList escapeControl = escapeControl (q.getD "(none)".toList) := by
    intro q
    cases q with
    | none => exact hnone
    | some q => rfl
  rw [hescaped, hescaped] at h
  exact escapeControl_injective h

theorem urlBody_of_parse {url : List Char} {parsed : ParsedUrl} (h : parsedUrl url = .ok parsed) :
    urlBody url = "host: ".toList ++ escapeControl parsed.host ++ "\npath: ".toList ++ escapeControl parsed.path ++
      "\nquery: ".toList ++ parsed.query.elim "(none)".toList escapeControl := by
  unfold urlBody
  rw [h]

theorem parsedUrl_of_parse {url : List Char} {parsed : ParsedUrl} (h : ParsedUrl.parse url = .ok parsed) :
    parsedUrl url = .ok parsed := by
  unfold parsedUrl
  rw [h]

/-- What is shown within the budget is the text itself. -/
theorem cut_spec (text : List Char) (maxBytes : Nat) :
    (byteLength text ≤ maxBytes ∧ cut text maxBytes = (text, false)) ∨
    (maxBytes < byteLength text ∧ (cut text maxBytes).2 = true) := by
  unfold cut
  by_cases hle : byteLength text ≤ maxBytes
  · rw [if_pos hle]
    exact .inl ⟨hle, rfl⟩
  · rw [if_neg hle]
    exact .inr ⟨by omega, rfl⟩

theorem after_spec (call : RenderedCall) (uses : List Use) :
    (after call uses).truncated = call.truncated ∧ (after call uses).body = call.body ∧
    (after call uses).fullBody = call.fullBody ∧
    ((after call uses).expanded = true ↔ call.expanded = true ∨ .expand ∈ uses) := by
  induction uses generalizing call with
  | nil => simp [after]
  | cons use uses ih =>
    obtain ⟨htruncated, hbody, hfull, hexpanded⟩ := ih (use.run call)
    have haft : after call (use :: uses) = after (use.run call) uses := rfl
    rw [haft, htruncated, hbody, hfull, hexpanded]
    cases use <;> simp [Use.run, expand]

section Render

variable [JsonText]

@[simp] theorem fullBody_render (request : ToolConfirmationRequest) :
    (render request isolation maxBytes).fullBody = callBody request ++ reasonOf request := rfl

@[simp] theorem title_render (request : ToolConfirmationRequest) :
    (render request isolation maxBytes).title = titleOf request isolation := rfl

/-- Calls of `bash` that look alike run the same command. -/
theorem command_eq (hfst : first.toolName = "bash") (hsec : second.toolName = "bash")
    (h : callBody first ++ reasonOf first = callBody second ++ reasonOf second) : first.command = second.command := by
  have hbody : ∀ request : ToolConfirmationRequest, request.toolName = "bash" →
      callBody request = "$ ".toList ++ escapeControl request.command := fun request hname => if_pos hname
  have hline : ∀ request : ToolConfirmationRequest, '\n' ∉ "$ ".toList ++ escapeControl request.command :=
    fun request => (AllShown.append (by decide) (clean_escapeControl _)).newline_notMem
  rw [hbody first hfst, hbody second hsec] at h
  obtain ⟨hcommand, -⟩ := append_inj_of_line (hline first) (hline second) (reasonOf_cases first)
    (reasonOf_cases second) h
  exact escapeControl_injective (List.append_cancel_left hcommand)

variable {request : ToolConfirmationRequest} {url : List Char}

theorem callBody_of_webUrl (hname : request.toolName ≠ "bash")
    (hurl : request.webUrl = some url) : callBody request = urlBody url ++
      (request.arg "query").elim [] fun query => "\nsearch: ".toList ++ escapeControl query := by
  unfold callBody
  rw [if_neg hname, hurl]

/-- Calls of `web_fetch` that look alike name the same host and path, and a query that is shown the same. -/
theorem url_eq {url' : List Char} {parsed parsed' : ParsedUrl} (hfst : first.toolName = "web_fetch")
    (hsec : second.toolName = "web_fetch") (hurl : first.arg "url" = some url) (hurl' : second.arg "url" = some url')
    (hpar : ParsedUrl.parse url = .ok parsed) (hpar' : ParsedUrl.parse url' = .ok parsed')
    (h : callBody first ++ reasonOf first = callBody second ++ reasonOf second) :
    parsed.host = parsed'.host ∧ parsed.path = parsed'.path ∧
      parsed.query.getD "(none)".toList = parsed'.query.getD "(none)".toList := by
  have hreason : ∀ request : ToolConfirmationRequest, request.toolName = "web_fetch" → reasonOf request = [] := by
    intro request hname
    unfold reasonOf
    rw [if_neg (by rw [hname]; decide)]
  have hbody : ∀ {request : ToolConfirmationRequest} {url : List Char} {parsed : ParsedUrl},
      request.toolName = "web_fetch" → request.arg "url" = some url → ParsedUrl.parse url = .ok parsed →
      ∃ search, (search = [] ∨ ∃ rest, search = '\n' :: rest) ∧
        callBody request = ("host: ".toList ++ escapeControl parsed.host) ++ '\n' ::
          (("path: ".toList ++ escapeControl parsed.path) ++ '\n' ::
            (("query: ".toList ++ parsed.query.elim "(none)".toList escapeControl) ++ search)) := by
    intro request url parsed hname hurl hpar
    refine ⟨(request.arg "query").elim [] fun query => "\nsearch: ".toList ++ escapeControl query, ?_, ?_⟩
    · cases request.arg "query" with
      | none => exact .inl rfl
      | some query => exact .inr ⟨_, rfl⟩
    · rw [callBody_of_webUrl (by rw [hname]; decide) ((webUrl_of_webFetch hname).trans hurl),
        urlBody_of_parse (parsedUrl_of_parse hpar)]
      simp
  obtain ⟨search, hsearch, hcall⟩ := hbody hfst hurl hpar
  obtain ⟨search', hsearch', hcall'⟩ := hbody hsec hurl' hpar'
  rw [hreason first hfst, hreason second hsec, List.append_nil, List.append_nil, hcall, hcall'] at h
  have hline : ∀ label text : List Char, AllShown label → '\n' ∉ label ++ escapeControl text := fun label text hlabel =>
    (hlabel.append (clean_escapeControl text)).newline_notMem
  have hqry : ∀ query : Option (List Char), '\n' ∉ "query: ".toList ++ query.elim "(none)".toList escapeControl := by
    intro query
    cases query with
    | none => decide
    | some query => exact hline _ _ (by decide)
  obtain ⟨hhost, h⟩ := append_inj_of_line (hline _ _ (by decide)) (hline _ _ (by decide)) (.inr ⟨_, rfl⟩)
    (.inr ⟨_, rfl⟩) h
  obtain ⟨hpath, h⟩ := append_inj_of_line (hline _ _ (by decide)) (hline _ _ (by decide)) (.inr ⟨_, rfl⟩)
    (.inr ⟨_, rfl⟩) (List.cons_eq_cons.mp h).2
  obtain ⟨hqry, -⟩ := append_inj_of_line (hqry _) (hqry _) hsearch hsearch' (List.cons_eq_cons.mp h).2
  exact ⟨escapeControl_injective (List.append_cancel_left hhost),
    escapeControl_injective (List.append_cancel_left hpath), query_escaped_inj (List.append_cancel_left hqry)⟩

/-! ## Approvals -/

/-- A call is approved only if the whole body was within the budget, and is what is shown, or was expanded. -/
theorem canApprove_render {uses : List Use} (h : (after (render request isolation maxBytes) uses).canApprove = true) :
    (byteLength (render request isolation maxBytes).fullBody ≤ maxBytes ∧
      (render request isolation maxBytes).body = (render request isolation maxBytes).fullBody) ∨ .expand ∈ uses := by
  obtain ⟨htruncated, -, -, hexpanded⟩ := after_spec (render request isolation maxBytes) uses
  unfold canApprove wasExpanded at h
  rw [htruncated, Bool.or_eq_true, hexpanded] at h
  rcases h with h | h | h
  · left
    have hbody : ((render request isolation maxBytes).body, (render request isolation maxBytes).truncated) =
        cut (render request isolation maxBytes).fullBody maxBytes := rfl
    rcases cut_spec (render request isolation maxBytes).fullBody maxBytes with ⟨hle, hcut⟩ | ⟨-, hcut⟩
    · rw [hcut] at hbody
      exact ⟨hle, (Prod.mk.inj hbody).1⟩
    · rw [← hbody] at hcut
      dsimp only at hcut
      rw [hcut] at h
      cases h
  · cases h
  · exact .inr h

/-! ## Renderings are clean -/

/-- How many line breaks are written between the parts of a body. -/
def lineBreaks (request : ToolConfirmationRequest) : Nat :=
  if request.toolName = "bash" then (request.arg "reason").elim 0 fun _ => 1
  else request.webUrl.elim 0 fun _ => 2 + (request.arg "query").elim 0 fun _ => 1

def UrlAccepted (request : ToolConfirmationRequest) : Prop :=
  request.toolName ≠ "bash" → ∀ url, request.webUrl = some url → ∃ parsed, parsedUrl url = .ok parsed

omit [JsonText] in
theorem urlBody_lined {parsed : ParsedUrl} (h : parsedUrl url = .ok parsed) : Lined 2 (urlBody url) := by
  have hqry : Lined 0 (parsed.query.elim "(none)".toList escapeControl) := by
    cases parsed.query with
    | none => decide
    | some query => exact (clean_escapeControl query).lined
  have hhost : Lined 0 "host: ".toList := by decide
  have hpath : Lined 1 "\npath: ".toList := by decide
  have hlabel : Lined 1 "\nquery: ".toList := by decide
  rw [urlBody_of_parse h]
  exact ((((hhost.escaped parsed.host).append hpath).escaped parsed.path).append hlabel).append hqry

/-- A body has the line breaks between its parts only, and is clean otherwise. -/
theorem fullBody_lined (h : UrlAccepted request) :
    Lined (lineBreaks request) (callBody request ++ reasonOf request) := by
  unfold lineBreaks callBody reasonOf
  by_cases hbash : request.toolName = "bash"
  · rw [if_pos hbash, if_pos hbash, if_pos hbash]
    have hprompt : Lined 0 "$ ".toList := by decide
    have hlabel : Lined 1 "\nmodel's reason: \"".toList := by decide
    have hquote : Lined 0 "\"".toList := by decide
    have hcommand := hprompt.escaped request.command
    cases request.arg "reason" with
    | none =>
      simp only [Option.elim_none, List.append_nil]
      exact hcommand
    | some reason =>
      have hboth := hcommand.append ((hlabel.escaped (reason.take reasonMaxChars)).append hquote)
      rwa [Nat.zero_add] at hboth
  · rw [if_neg hbash, if_neg hbash, if_neg hbash, List.append_nil]
    cases hurl : request.webUrl with
    | none => exact (clean_escapeControl _).lined
    | some url =>
      obtain ⟨parsed, hparsed⟩ := h hbash url hurl
      apply (urlBody_lined hparsed).append
      cases request.arg "query" with
      | none => exact AllShown.lined (by decide)
      | some query =>
        have hlabel : Lined 1 "\nsearch: ".toList := by decide
        exact hlabel.escaped query

omit [JsonText] in
theorem withinBytes_subset (text : List Char) : ∀ maxBytes, withinBytes maxBytes text ⊆ text := by
  induction text with
  | nil => simp [withinBytes]
  | cons c rest ih =>
    intro maxBytes
    unfold withinBytes
    split
    · exact List.cons_subset_cons c (ih _)
    · exact List.nil_subset _

theorem body_shown {lines : Nat} (h : Lined lines (render request isolation maxBytes).fullBody) :
    ∀ c ∈ (render request isolation maxBytes).body, c ≠ '\n' → IsShown c := by
  have hbody : (render request isolation maxBytes).body =
      (cut (render request isolation maxBytes).fullBody maxBytes).1 := rfl
  rw [hbody]
  generalize (render request isolation maxBytes).fullBody = text at h
  have hdig : ∀ n, AllShown (Nat.toDigits 10 n) := by
    intro n c hc
    have hdgt := Nat.isDigit_of_mem_toDigits (by omega) (by omega) hc
    have hcode : 48 ≤ c.toNat ∧ c.toNat ≤ 57 := Char.isDigit_iff_toNat.mp hdgt
    constructor
    · simp [AgentId.isControl]
      omega
    · simp [isFormatting]
      omega
  have hsta : AllShown "… [truncated: ".toList := by decide
  have hof : AllShown " of ".toList := by decide
  have hend : AllShown " bytes shown]".toList := by decide
  unfold cut
  split
  · exact h.shown
  · intro c hc hne
    simp only [List.mem_append] at hc
    rcases hc with ((((hc | hc) | hc) | hc) | hc) | hc
    · exact h.shown c (withinBytes_subset _ _ hc) hne
    · exact hsta c hc
    · exact hdig _ c hc
    · exact hof c hc
    · exact hdig _ c hc
    · exact hend c hc

omit [JsonText] in
theorem clean_title (h : AllShown isolation.display) :
    AllShown (titleOf request isolation) := by
  have htool := clean_escapeControl request.toolName.toList
  unfold titleOf
  dsimp only
  split
  · split
    · exact htool.append (by decide)
    · exact (htool.append (by decide)).append h
  · exact htool

omit [JsonText] in
theorem clean_origin (h : ∀ origin, request.origin = some origin → AllShown origin.declarationDigest.toList) :
    AllShown (originOf request) := by
  unfold originOf
  cases hori : request.origin with
  | none => decide
  | some origin =>
    exact (((clean_escapeControl _).append (by decide)).append (h origin hori)).append (by decide)

omit [JsonText] in
/-- An agent's identifier has no control characters of its own. -/
theorem agentOf_control : ∀ c ∈ agentOf request, AgentId.isControl c = false := by
  have hid : ∀ id : AgentId, ∀ c ∈ id.asStr.toList, AgentId.isControl c = false := by
    intro id c hc
    have hval := id.valid
    unfold AgentId.problem at hval
    split at hval
    · cases hval
    · split at hval
      · cases hval
      · rw [Option.map_eq_none_iff, List.find?_eq_none] at hval
        simpa using hval c hc
  unfold agentOf
  have hunk : AllShown "unknown agent".toList := by decide
  cases request.acting with
  | none => exact fun c hc => (hunk c hc).1
  | some acting =>
    dsimp only [Option.elim_some]
    split
    next subject _ =>
      intro c hc
      simp only [List.mem_append] at hc
      rcases hc with (hc | hc) | hc
      · exact hid _ c hc
      · exact ((by decide : AllShown " for ".toList) c hc).1
      · exact (clean_escapeControl _ c hc).1
    next => exact hid _

/-- What a person can rely on, who approves a rendering. -/
theorem render_shows (isolation : IsolationStatus) (maxBytes : Nat) :
    (∀ first second : ToolConfirmationRequest, first.toolName = "bash" → second.toolName = "bash" →
      (render first isolation maxBytes).title = (render second isolation maxBytes).title →
      (render first isolation maxBytes).expand.1 = (render second isolation maxBytes).expand.1 →
      first.command = second.command ∧ first.unsandboxed = second.unsandboxed) ∧
    (∀ (first second : ToolConfirmationRequest) (url url' : List Char) (parsed parsed' : ParsedUrl),
      first.toolName = "web_fetch" → second.toolName = "web_fetch" →
      first.arg "url" = some url → second.arg "url" = some url' →
      ParsedUrl.parse url = .ok parsed → ParsedUrl.parse url' = .ok parsed' →
      (render first isolation maxBytes).expand.1 = (render second isolation maxBytes).expand.1 →
      parsed.host = parsed'.host ∧ parsed.path = parsed'.path ∧
        parsed.query.getD "(none)".toList = parsed'.query.getD "(none)".toList) ∧
    (∀ request : ToolConfirmationRequest, AllShown isolation.display →
      (∀ origin, request.origin = some origin → AllShown origin.declarationDigest.toList) → UrlAccepted request →
      AllShown (render request isolation maxBytes).title ∧ AllShown (render request isolation maxBytes).origin ∧
      AllShown (render request isolation maxBytes).isolation ∧
      (∀ c ∈ (render request isolation maxBytes).agent, AgentId.isControl c = false) ∧
      (∀ c ∈ (render request isolation maxBytes).body, c ≠ '\n' → IsShown c) ∧
      Lined (lineBreaks request) (render request isolation maxBytes).expand.1) ∧
    ∀ (request : ToolConfirmationRequest) (uses : List Use),
      (after (render request isolation maxBytes) uses).canApprove = true →
      (byteLength (render request isolation maxBytes).fullBody ≤ maxBytes ∧
        (render request isolation maxBytes).body = (render request isolation maxBytes).fullBody) ∨ .expand ∈ uses := by
  refine ⟨?_, ?_, ?_, ?_⟩
  · intro first second hfirst hsecond htitle hbody
    exact ⟨command_eq hfirst hsecond hbody, unsandboxed_eq hfirst hsecond htitle⟩
  · intro first second url url' parsed parsed' hfirst hsecond hurl hurl' hparse hparse' hbody
    exact url_eq hfirst hsecond hurl hurl' hparse hparse' hbody
  · intro request hisolation horigin hurl
    have hlined := fullBody_lined hurl
    exact ⟨clean_title hisolation, clean_origin horigin, hisolation, agentOf_control, body_shown hlined, hlined⟩
  · intro request uses h
    exact canApprove_render h

end Render

/-- A call of `web_fetch`. -/
def webFetch (url : String) : ToolConfirmationRequest :=
  { toolName := "web_fetch", args := .object [("url", .string url)] }

/-- A call of `bash`. -/
def bash (command : String) : ToolConfirmationRequest :=
  { toolName := "bash", args := .object [("command", .string command)] }

/-- An identifier with a bidi override. -/
def overridden : AgentId := ⟨"a\u202eb", by decide +kernel⟩

theorem render_shows_ls :
    (bash "ls").command = { bash "ls" with functionCallId := some "2" }.command ∧
    ("docs.rs".toList = "docs.rs".toList ∧ "/a".toList = "/a".toList ∧
      (some "q=1".toList).getD "(none)".toList = (some "q=1".toList).getD "(none)".toList) ∧
    AllShown (@render plainText (bash "ls") .host renderedCallMaxBytes).title ∧
    byteLength (@render plainText (bash "ls") .host renderedCallMaxBytes).fullBody ≤ renderedCallMaxBytes := by
  let _ : JsonText := plainText
  obtain ⟨hbash, hweb, hclean, happrove⟩ := render_shows .host renderedCallMaxBytes
  have hcommand := (hbash (bash "ls") { bash "ls" with functionCallId := some "2" } rfl rfl rfl rfl).1
  have hurl := hweb (webFetch "https://docs.rs/a?q=1") (webFetch "HTTPS://Docs.rs/a?q=1#top")
    "https://docs.rs/a?q=1".toList "HTTPS://Docs.rs/a?q=1#top".toList
    ⟨true, "docs.rs".toList, 443, false, "/a".toList, some "q=1".toList, none⟩
    ⟨true, "docs.rs".toList, 443, false, "/a".toList, some "q=1".toList, some "top".toList⟩
    rfl rfl (by decide +kernel) (by decide +kernel) (by decide +kernel) (by decide +kernel) (by decide +kernel)
  have htitle := (hclean (bash "ls") (by decide) (by simp [bash]) fun hname => absurd rfl hname).1
  refine ⟨hcommand, hurl, htitle, ?_⟩
  rcases happrove (bash "ls") [] (by decide +kernel) with h | h
  · exact h.1
  · cases h

/-- The scheme and the port are not shown, a missing query is shown as one that says so, and some format characters
are shown as they are: those that are not listed, and those in an agent's identifier, the host of a URL that is
refused, or the name of the isolation. -/
theorem render_hides :
    ((@render plainText (webFetch "http://h/") .host renderedCallMaxBytes).title =
        (@render plainText (webFetch "https://h:8080/") .host renderedCallMaxBytes).title ∧
      (@render plainText (webFetch "http://h/") .host renderedCallMaxBytes).expand.1 =
        (@render plainText (webFetch "https://h:8080/") .host renderedCallMaxBytes).expand.1 ∧
      ParsedUrl.parse "http://h/".toList = .ok ⟨false, "h".toList, 80, false, "/".toList, none, none⟩ ∧
      ParsedUrl.parse "https://h:8080/".toList = .ok ⟨true, "h".toList, 8080, true, "/".toList, none, none⟩) ∧
    ((@render plainText (webFetch "http://h/") .host renderedCallMaxBytes).expand.1 =
        (@render plainText (webFetch "http://h/?(none)") .host renderedCallMaxBytes).expand.1 ∧
      ParsedUrl.parse "http://h/?(none)".toList =
        .ok ⟨false, "h".toList, 80, false, "/".toList, some "(none)".toList, none⟩) ∧
    '\u061c' ∈ (@render plainText (bash "ls \u061c") .host renderedCallMaxBytes).expand.1 ∧
    '\u202e' ∈ (@render plainText (webFetch "a\u202eb") .host renderedCallMaxBytes).expand.1 ∧
    '\u202e' ∈ (@render plainText { bash "ls" with acting := some { agent := { id := overridden } } } .host
      renderedCallMaxBytes).agent ∧
    '\x1b' ∈ (@render plainText (bash "ls") (.container "\x1b") renderedCallMaxBytes).title := by
  refine ⟨⟨?_, ?_, ?_, ?_⟩, ⟨?_, ?_⟩, ?_, ?_, ?_, ?_⟩ <;> decide +kernel

end RenderedCall

end Adk

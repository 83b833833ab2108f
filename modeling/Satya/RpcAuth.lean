import Mathlib.Data.List.Basic
import Satya.Rpc
/-!
# RpcAuth — credentials (`rpc.rs`, `resolve_auth` and `reconnect`)

A cookie file is read at connect and reconnect time; its first line, up to the first colon and from it, is the user and
the password (`resolveAuth_cookie_iff`).  A failed reconnect leaves the client as it was.
-/
namespace Satya
namespace Rpc

/-- How the configuration names the credentials. -/
inductive RpcAuth where
  | cookie (path : String)
  | userPass (user pass : String)

inductive Auth where
  | basic (user pass : String)
  | none
deriving DecidableEq

/-! ## The cookie -/

def stripCr (line : List Char) : List Char := if line.getLast? = some '\r' then line.dropLast else line

/-- `contents.lines().next()`: up to a line feed, with a carriage return before it taken off. -/
def firstLine (contents : List Char) : Option (List Char) :=
  if contents = [] then none
  else if '\n' ∈ contents then some (stripCr (contents.takeWhile (fun c => c ≠ '\n')))
  else some contents

/-- Around the first colon. -/
def splitColon (line : List Char) : Option (List Char × List Char) :=
  if ':' ∈ line then some (line.takeWhile (fun c => c ≠ ':'), (line.dropWhile (fun c => c ≠ ':')).tail) else none

/-- `readToString` is the file system at that moment. -/
def resolveAuth (auth : Option RpcAuth) (readToString : String → Except String String) : Except String Auth :=
  match auth with
  | some (.cookie path) =>
    match readToString path with
    | .error e => .error e
    | .ok contents =>
      match firstLine contents.toList with
      | none => .error ("cookie file " ++ path ++ " is empty")
      | some line =>
        match splitColon line with
        | none => .error ("cookie file " ++ path ++ " is malformed")
        | some (user, pass) => .ok (.basic (String.ofList user) (String.ofList pass))
  | some (.userPass user pass) => .ok (.basic user pass)
  | none => .ok .none

/-! ## The client -/

/-- The client as far as it changes: `cfg` is kept to read the credentials again. -/
structure Client where
  cfg : Option RpcAuth
  auth : Auth

/-- `built` is whether the HTTP client builds.  Both are made before anything is assigned. -/
def Client.reconnect (client : Client) (readToString : String → Except String String) (built : Bool) :
    Except String Unit × Client :=
  match resolveAuth client.cfg readToString with
  | .error e => (.error e, client)
  | .ok auth => if built then (.ok (), { client with auth := auth }) else (.error "builder error", client)

/-! ## What a cookie file says -/

theorem takeWhile_append_stop {p : Char → Bool} {l r : List Char} {c : Char} (hl : ∀ a ∈ l, p a = true)
    (hc : p c = false) : (l ++ c :: r).takeWhile p = l ∧ (l ++ c :: r).dropWhile p = c :: r := by
  constructor
  · rw [List.takeWhile_append_of_pos hl, List.takeWhile_cons_of_neg (by simp [hc]), List.append_nil]
  · rw [List.dropWhile_append_of_pos hl, List.dropWhile_cons_of_neg (by simp [hc])]

/-- A list that holds `c`, around the first one. -/
theorem exists_split {l : List Char} {c : Char} (h : c ∈ l) : ∃ pre rest, l = pre ++ c :: rest ∧ c ∉ pre ∧
    l.takeWhile (fun a => a ≠ c) = pre ∧ l.dropWhile (fun a => a ≠ c) = c :: rest := by
  obtain ⟨pre, rest, rfl, hpre⟩ := List.eq_append_cons_of_mem h
  have hstop := takeWhile_append_stop (p := fun a => decide (a ≠ c)) (l := pre) (r := rest) (c := c)
    (fun a ha => decide_eq_true (fun heq => hpre (heq ▸ ha))) (by simp)
  exact ⟨pre, rest, rfl, hpre, hstop.1, hstop.2⟩

theorem splitColon_eq_some_iff {line user pass : List Char} :
    splitColon line = some (user, pass) ↔ line = user ++ ':' :: pass ∧ ':' ∉ user := by
  unfold splitColon
  constructor
  · intro h
    split at h
    · next hmem =>
      obtain ⟨pre, rest, hline, hpre, htake, hdrop⟩ := exists_split hmem
      rw [htake, hdrop, Option.some.injEq, Prod.mk.injEq] at h
      obtain ⟨rfl, rfl⟩ := h
      exact ⟨hline, hpre⟩
    · cases h
  · rintro ⟨rfl, huser⟩
    have hstop := takeWhile_append_stop (p := fun a => decide (a ≠ ':')) (l := user) (r := pass) (c := ':')
      (fun a ha => decide_eq_true (fun heq => huser (heq ▸ ha))) (by simp)
    rw [if_pos (by simp), hstop.1, hstop.2, List.tail_cons]

/-- How the first line of a file ends. -/
def LineEnd (line tail : List Char) : Prop :=
  tail = [] ∨ (∃ rest, tail = '\r' :: '\n' :: rest) ∨ ∃ rest, tail = '\n' :: rest ∧ line.getLast? ≠ some '\r'

theorem stripCr_concat (line : List Char) : stripCr (line ++ ['\r']) = line := by
  rw [stripCr, if_pos (by simp), List.dropLast_concat]

theorem firstLine_of_feed {line rest : List Char} (hline : '\n' ∉ line) :
    firstLine (line ++ '\n' :: rest) = some (stripCr line) := by
  have hstop := takeWhile_append_stop (p := fun a => decide (a ≠ '\n')) (l := line) (r := rest) (c := '\n')
    (fun a ha => decide_eq_true (fun heq => hline (heq ▸ ha))) (by simp)
  rw [firstLine, if_neg (by simp), if_pos (by simp), hstop.1]

/-- **What the first line of a file is.** -/
theorem firstLine_eq_some_iff {contents line : List Char} : firstLine contents = some line ↔
    contents ≠ [] ∧ '\n' ∉ line ∧ ∃ tail, contents = line ++ tail ∧ LineEnd line tail := by
  constructor
  · intro h
    have hne : contents ≠ [] := by
      rintro rfl
      cases h
    refine ⟨hne, ?_⟩
    by_cases hmem : '\n' ∈ contents
    · obtain ⟨pre, rest, rfl, hpre, -⟩ := exists_split hmem
      rw [firstLine_of_feed hpre, Option.some.injEq, stripCr] at h
      split at h
      · next hlast =>
        have hsplit : line ++ ['\r'] = pre := h ▸ List.dropLast_append_getLast? _ hlast
        refine ⟨fun hin => hpre (hsplit ▸ List.mem_append_left _ hin), '\r' :: '\n' :: rest, ?_, Or.inr (Or.inl ⟨rest, rfl⟩)⟩
        rw [← hsplit, List.append_assoc]
        rfl
      · next hlast =>
        subst h
        exact ⟨hpre, '\n' :: rest, rfl, Or.inr (Or.inr ⟨rest, rfl, hlast⟩)⟩
    · rw [firstLine, if_neg hne, if_neg hmem, Option.some.injEq] at h
      subst h
      exact ⟨hmem, [], (List.append_nil _).symm, Or.inl rfl⟩
  · rintro ⟨hne, hline, tail, rfl, rfl | ⟨rest, rfl⟩ | ⟨rest, rfl, hlast⟩⟩
    · rw [List.append_nil] at hne ⊢
      rw [firstLine, if_neg hne, if_neg hline]
    · have hcr : '\n' ∉ line ++ ['\r'] := by simpa using hline
      have hsplit : line ++ '\r' :: '\n' :: rest = (line ++ ['\r']) ++ '\n' :: rest := by simp
      rw [hsplit, firstLine_of_feed hcr, stripCr_concat]
    · rw [firstLine_of_feed hline, stripCr, if_neg hlast]

/-- **A cookie file gives exactly the user and the password of its first line**: the user up to the first colon, the
password from it to the end of the line, for any file whatsoever. -/
theorem resolveAuth_cookie_iff (path contents user pass : String) :
    resolveAuth (some (.cookie path)) (fun _ => .ok contents) = .ok (.basic user pass) ↔
      ':' ∉ user.toList ∧ '\n' ∉ user.toList ∧ '\n' ∉ pass.toList ∧
        ∃ tail, contents.toList = user.toList ++ ':' :: pass.toList ++ tail ∧
          LineEnd (user.toList ++ ':' :: pass.toList) tail := by
  have hread : resolveAuth (some (.cookie path)) (fun _ => .ok contents) = .ok (.basic user pass) ↔
      ∃ line, firstLine contents.toList = some line ∧ splitColon line = some (user.toList, pass.toList) := by
    unfold resolveAuth
    dsimp only
    constructor
    · intro h
      split at h
      · cases h
      · next line hline =>
        split at h
        · cases h
        · next u p hsplit =>
          rw [Except.ok.injEq, Auth.basic.injEq] at h
          obtain ⟨rfl, rfl⟩ := h
          exact ⟨line, hline, by rw [String.toList_ofList, String.toList_ofList, hsplit]⟩
    · rintro ⟨line, hline, hsplit⟩
      rw [hline]
      dsimp only
      rw [hsplit]
      dsimp only
      rw [String.ofList_toList, String.ofList_toList]
  rw [hread]
  constructor
  · rintro ⟨line, hline, hsplit⟩
    obtain ⟨rfl, huser⟩ := splitColon_eq_some_iff.1 hsplit
    obtain ⟨-, hfeed, tail, hcontents, hend⟩ := firstLine_eq_some_iff.1 hline
    rw [List.mem_append, List.mem_cons, not_or, not_or] at hfeed
    exact ⟨huser, hfeed.1, hfeed.2.2, tail, hcontents, hend⟩
  · rintro ⟨huser, hfeed, hfeed', tail, hcontents, hend⟩
    refine ⟨_, firstLine_eq_some_iff.2 ⟨?_, ?_, tail, hcontents, hend⟩, splitColon_eq_some_iff.2 ⟨rfl, huser⟩⟩
    · rw [hcontents]
      simp
    · rw [List.mem_append, List.mem_cons, not_or, not_or]
      exact ⟨hfeed, by decide, hfeed'⟩

end Rpc
end Satya

import AlertRules.Rooms
import Mathlib.Data.List.Basic

/-!
# AlertRules.Proofs.Rooms — the local part of a user id

A user id is the local part and the name of a server, with a colon between them.  Behind a host name
there may be a port, and an IPv6 address is full of colons, so the colon in the middle is the first one
of a user id and need not be the last.

`localPart?` cuts at the last colon (`localPart?_cut`).  It finds the local part exactly if the server
is a host name without a port; otherwise what it finds goes on behind the local part, up to the last
colon of the server, and so does the name by which a member without a display name is called
(`UserId.localPart?_text`).
-/

namespace AlertRules

/-! ## User ids -/

/-- A host name, or an IPv6 address. -/
inductive Host where
  | name (text : String) (named : text ≠ "") (colon_notMem : ':' ∉ text.toList)
  | address (text : String) (colon_mem : ':' ∈ text.toList)

/-- The host as it is written, an address in brackets. -/
def Host.text : Host → String
  | .name s _ _ => s
  | .address s _ => "[" ++ s ++ "]"

/-- A host, and the port if there is one. -/
structure ServerName where
  host : Host
  port : Option String
  port_digits : ∀ p ∈ port, p ≠ "" ∧ ∀ c ∈ p.toList, c.isDigit = true

namespace ServerName

/-- The server as it is written. -/
def text (n : ServerName) : String :=
  match n.port with
  | none => n.host.text
  | some p => n.host.text ++ ":" ++ p

/-- A host name and no port. -/
def Plain (n : ServerName) : Prop :=
  n.port = none ∧ ∃ s hs hcolon, n.host = .name s hs hcolon

end ServerName

/-- The id of a user of a server. -/
structure UserId where
  localPart : String
  server : ServerName
  localPart_ne_empty : localPart ≠ ""
  colon_notMem : ':' ∉ localPart.toList

/-- The user id as it is written. -/
def UserId.text (u : UserId) : String :=
  "@" ++ u.localPart ++ ":" ++ u.server.text

/-! ## The last colon -/

section Cut

variable {front back : String}

theorem toList_cut (front back : String) :
    (front ++ ":" ++ back).toList = front.toList ++ ':' :: back.toList := by
  rw [String.toList_append, String.toList_append, List.append_assoc]
  rfl

theorem exists_cut {s : String} (h : ':' ∈ s.toList) :
    ∃ front back, s = front ++ ":" ++ back ∧ ':' ∉ back.toList := by
  obtain ⟨as, bs, hsplit, hnone⟩ := List.eq_append_cons_of_mem (List.mem_reverse.mpr h)
  refine ⟨String.ofList bs.reverse, String.ofList as.reverse, ?_, ?_⟩
  · apply String.toList_inj.mp
    rw [toList_cut, String.toList_ofList, String.toList_ofList, ← List.reverse_reverse s.toList,
      hsplit, List.reverse_append, List.reverse_cons, List.append_assoc]
    rfl
  · rw [String.toList_ofList, List.mem_reverse]
    exact hnone

/-- What lies between the leading sign and the last colon is taken for the local part. -/
theorem localPart?_cut (hcolon : ':' ∉ back.toList) (hfront : front ≠ "") (hback : back ≠ "") :
    localPart? ("@" ++ front ++ ":" ++ back) = some front := by
  have hlist : ("@" ++ front ++ ":" ++ back).toList = '@' :: (front.toList ++ ':' :: back.toList) := by
    rw [toList_cut, String.toList_append]
    rfl
  have hother : ∀ c ∈ back.toList.reverse, (c ≠ ':' : Bool) = true := by
    intro c hc
    apply decide_eq_true
    rintro rfl
    exact hcolon (List.mem_reverse.mp hc)
  have hreverse : (front.toList ++ ':' :: back.toList).reverse =
      back.toList.reverse ++ ':' :: front.toList.reverse := by
    rw [List.reverse_append, List.reverse_cons, List.append_assoc]
    rfl
  have hserver : (front.toList ++ ':' :: back.toList).reverse.takeWhile (· ≠ ':') =
      back.toList.reverse := by
    rw [hreverse, List.takeWhile_append_of_pos hother, List.takeWhile_cons_of_neg (by decide),
      List.append_nil]
  have hname : (front.toList ++ ':' :: back.toList).reverse.dropWhile (· ≠ ':') =
      ':' :: front.toList.reverse := by
    rw [hreverse, List.dropWhile_append_of_pos hother, List.dropWhile_cons_of_neg (by decide)]
  have hne : ¬ (front.toList.reverse = [] ∨ back.toList.reverse = []) := by
    rw [List.reverse_eq_nil_iff, List.reverse_eq_nil_iff, String.toList_eq_nil_iff,
      String.toList_eq_nil_iff]
    exact not_or.mpr ⟨hfront, hback⟩
  simp only [localPart?, hlist, hserver, hname]
  rw [if_neg hne, List.reverse_reverse, String.ofList_toList]

end Cut

/-! ## Servers -/

namespace ServerName

variable (n : ServerName)

/-- The name of a server does not end in a colon. -/
theorem exists_getLast? : ∃ c, n.text.toList.getLast? = some c ∧ c ≠ ':' := by
  unfold text
  cases hport : n.port with
  | none =>
    cases n.host with
    | name s hs hcolon =>
      have hne : s.toList ≠ [] := fun h => hs (String.toList_eq_nil_iff.mp h)
      refine ⟨s.toList.getLast hne, List.getLast?_eq_some_getLast hne, ?_⟩
      intro heq
      exact hcolon (heq ▸ List.getLast_mem hne)
    | address s _ =>
      refine ⟨']', ?_, by decide⟩
      show ("[" ++ s ++ "]").toList.getLast? = some ']'
      rw [String.toList_append]
      exact List.getLast?_concat
  | some p =>
    obtain ⟨hp, hdigits⟩ := n.port_digits p hport
    have hne : p.toList ≠ [] := fun h => hp (String.toList_eq_nil_iff.mp h)
    refine ⟨p.toList.getLast hne, ?_, ?_⟩
    · show (n.host.text ++ ":" ++ p).toList.getLast? = _
      rw [String.toList_append, List.getLast?_append_of_ne_nil _ hne]
      exact List.getLast?_eq_some_getLast hne
    · intro heq
      have hdigit := hdigits _ (List.getLast_mem hne)
      rw [heq] at hdigit
      exact absurd hdigit (by decide)

/-- A host name without a port is what has no colon. -/
theorem plain_iff : n.Plain ↔ ':' ∉ n.text.toList := by
  unfold Plain text
  cases n.port with
  | none =>
    cases n.host with
    | name s hs hcolon => exact iff_of_true ⟨rfl, s, hs, hcolon, rfl⟩ hcolon
    | address s hcolon =>
      apply iff_of_false
      · rintro ⟨-, _, _, _, hname⟩
        cases hname
      · apply not_not_intro
        show ':' ∈ ("[" ++ s ++ "]").toList
        rw [String.toList_append, String.toList_append]
        exact List.mem_append_left _ (List.mem_append_right _ hcolon)
  | some p =>
    apply iff_of_false
    · rintro ⟨hport, -⟩
      cases hport
    · apply not_not_intro
      show ':' ∈ (n.host.text ++ ":" ++ p).toList
      rw [toList_cut]
      exact List.mem_append_right _ List.mem_cons_self

variable {n} {front back : String}

theorem toList_of_cut (h : ":" ++ n.text = front ++ ":" ++ back) :
    ':' :: n.text.toList = front.toList ++ ':' :: back.toList := by
  rw [← toList_cut, ← h, String.toList_append]
  rfl

/-- Behind its last colon a server goes on. -/
theorem ne_empty_of_cut (h : ":" ++ n.text = front ++ ":" ++ back) : back ≠ "" := by
  rintro rfl
  obtain ⟨c, hlast, hc⟩ := n.exists_getLast?
  have hne : n.text.toList ≠ [] := by
    intro hnil
    rw [hnil] at hlast
    cases hlast
  have hend : (':' :: n.text.toList).getLast? = some ':' := by
    rw [toList_of_cut h]
    exact List.getLast?_concat
  rw [← List.singleton_append, List.getLast?_append_of_ne_nil _ hne, hlast] at hend
  exact hc (Option.some.inj hend)

/-- The colon in front of a server is the last one iff the server is plain. -/
theorem eq_empty_iff_of_cut (h : ":" ++ n.text = front ++ ":" ++ back)
    (hcolon : ':' ∉ back.toList) : front = "" ↔ n.Plain := by
  have hchars := toList_of_cut h
  rw [n.plain_iff, ← String.toList_eq_nil_iff]
  cases hfront : front.toList with
  | nil =>
    rw [hfront] at hchars
    apply iff_of_true rfl
    rwa [(List.cons.inj hchars).2]
  | cons c cs =>
    rw [hfront] at hchars
    apply iff_of_false (List.cons_ne_nil c cs)
    apply not_not_intro
    rw [(List.cons.inj hchars).2]
    exact List.mem_append_right cs List.mem_cons_self

end ServerName

/-! ## The local part of a user id -/

/-- The user has no display name in the room, or an empty one. -/
def Directory.Nameless (d : Directory) (user room : String) : Prop :=
  ∀ name, (d.member? room user).bind Member.displayName = some name → name = ""

/-- Whoever has no display name is called by the local part. -/
theorem Directory.Nameless.displayName_eq {d : Directory} {user room name : String}
    (h : d.Nameless user room) (hlocal : localPart? user = some name) :
    d.displayName user room = name := by
  have hnone : ((d.member? room user).bind Member.displayName).filter (· ≠ "") = none := by
    apply Option.filter_eq_none_iff.mpr
    intro name hname
    rw [h name hname]
    decide
  rw [displayName, hnone]
  show (localPart? user).getD user = name
  rw [hlocal, Option.getD_some]

namespace UserId

/-- The server up to its last colon, if it has one, is taken for a part of the local part. -/
theorem exists_overhang (u : UserId) :
    ∃ front back, ":" ++ u.server.text = front ++ ":" ++ back ∧ ':' ∉ back.toList ∧
      localPart? u.text = some (u.localPart ++ front) ∧ (front = "" ↔ u.server.Plain) := by
  have hmem : ':' ∈ (":" ++ u.server.text).toList := by
    rw [String.toList_append]
    exact List.mem_append_left _ List.mem_cons_self
  obtain ⟨front, back, hcut, hcolon⟩ := exists_cut hmem
  have htext : u.text = "@" ++ (u.localPart ++ front) ++ ":" ++ back := by
    rw [text, String.append_assoc, hcut]
    simp only [String.append_assoc]
  have hfront : u.localPart ++ front ≠ "" :=
    fun h => u.localPart_ne_empty (String.append_eq_empty_iff.mp h).1
  refine ⟨front, back, hcut, hcolon, ?_, ServerName.eq_empty_iff_of_cut hcut hcolon⟩
  rw [htext]
  exact localPart?_cut hcolon hfront (ServerName.ne_empty_of_cut hcut)

/-- The local part is found, and whoever has no display name is called by it, exactly if the server is a
host name without a port.  In general what is found goes on up to the last colon of the server. -/
theorem localPart?_text (u : UserId) :
    (localPart? u.text = some u.localPart ↔ u.server.Plain) ∧
    (∀ d room, Directory.Nameless d u.text room →
      (d.displayName u.text room = u.localPart ↔ u.server.Plain)) ∧
    ∃ front back, ":" ++ u.server.text = front ++ ":" ++ back ∧ ':' ∉ back.toList ∧
      localPart? u.text = some (u.localPart ++ front) ∧
      ∀ d room, Directory.Nameless d u.text room →
        d.displayName u.text room = u.localPart ++ front := by
  obtain ⟨front, back, hcut, hcolon, hlocal, hplain⟩ := u.exists_overhang
  have hname : ∀ d room, Directory.Nameless d u.text room →
      d.displayName u.text room = u.localPart ++ front :=
    fun d room h => h.displayName_eq hlocal
  refine ⟨?found, ?called, front, back, hcut, hcolon, hlocal, hname⟩
  case found => rw [hlocal, Option.some.injEq, String.append_eq_left_iff, hplain]
  case called =>
    intro d room h
    rw [hname d room h, String.append_eq_left_iff, hplain]

/-- Alice, on a server with a port. -/
def onPort : UserId where
  localPart := "alice"
  server.host := .name "example.org" (by decide) (by decide)
  server.port := some "8448"
  server.port_digits := by
    intro p hp
    obtain rfl := Option.some.inj hp
    exact ⟨by decide, List.all_eq_true.mp (by decide)⟩
  localPart_ne_empty := by decide
  colon_notMem := by decide

theorem not_plain_onPort : ¬ onPort.server.Plain := by
  rintro ⟨hport, -⟩
  cases hport

/-- Alice without a display name is not called by her local part. -/
theorem localPart?_text_onPort :
    (Directory.empty.withMember "!r:x" onPort.text none).Nameless onPort.text "!r:x" ∧
      (Directory.empty.withMember "!r:x" onPort.text none).displayName onPort.text "!r:x" ≠ "alice" := by
  have hnameless :
      (Directory.empty.withMember "!r:x" onPort.text none).Nameless onPort.text "!r:x" := by
    intro name hname
    have hnone : ((Directory.empty.withMember "!r:x" onPort.text none).member? "!r:x"
        onPort.text).bind Member.displayName = none := by decide
    exact absurd (hnone.symm.trans hname) (by simp)
  obtain ⟨-, hcalled, -⟩ := localPart?_text onPort
  exact ⟨hnameless, fun h => not_plain_onPort ((hcalled _ _ hnameless).mp h)⟩

/-- The local part is not found in every user id. -/
theorem not_always_localPart : ¬ ∀ u : UserId, localPart? u.text = some u.localPart := by
  intro h
  have hfound : localPart? onPort.text = some "alice:example.org" := by decide
  exact absurd (hfound.symm.trans (h onPort)) (by decide)

end UserId

end AlertRules

import Mathlib.Tactic.Common
import Telegraph.Lib.Chains

/-!
# The Log of a Channel

The server numbers what happens in a channel: an update has a `pts` and counts for so many numbers
up to it. What a client is to hold after a number is the content that the updates up to it make.
Updates of messages, edits and deletions change it, those of web pages do not.

## Main results

* `contentAfter_of_not_added`: **edits and deletions in any order of their kinds**: a message that
  is not added is gone if it is deleted, and has its last edit otherwise.
* `Settled.contentAfter_eq`: a message that is added, and not changed otherwise, is there.
* `upTo_append_between`: the updates up to a number, in two parts.
* `between_append`, `between_eq_singleton`: the updates between two numbers are put together from
  those between the numbers on the way.
-/

namespace Telegraph.Channels

variable {Body : Type}

/-! ### Changes -/

/-- A message with the identifier of its conversation and its own. -/
structure ChannelMessage (Body : Type) where
  cid : ℤ
  mid : ℤ
  body : Body
deriving DecidableEq

/-- What an `updateNewChannelMessage`, an `updateEditChannelMessage`, an
`updateDeleteChannelMessages` or an `updateChannelWebPage` is about. -/
inductive PtsChange (Body : Type) where
  | newMessage (message : ChannelMessage Body)
  | editMessage (message : ChannelMessage Body)
  | deleteMessages (messages : List ℤ)
  | webPage
deriving DecidableEq

namespace PtsChange

/-- What a change makes of the content of a message. -/
def changeAt (mid : ℤ) (content : Option Body) : PtsChange Body → Option Body
  | newMessage message => if message.mid = mid then some message.body else content
  | editMessage message =>
      if message.mid = mid then content.map fun _ => message.body else content
  | deleteMessages messages => if mid ∈ messages then none else content
  | webPage => content

/-- Whether a change brings, edits or deletes a message. -/
def About (mid : ℤ) : PtsChange Body → Prop
  | newMessage message => message.mid = mid
  | editMessage message => message.mid = mid
  | deleteMessages messages => mid ∈ messages
  | webPage => False

/-- The message that a change adds. -/
def added : PtsChange Body → Option (ChannelMessage Body)
  | newMessage message => some message
  | _ => none

/-- The message that a change edits. -/
def edited : PtsChange Body → Option (ChannelMessage Body)
  | editMessage message => some message
  | _ => none

/-- The messages that a change deletes. -/
def deleted : PtsChange Body → List ℤ
  | deleteMessages messages => messages
  | _ => []

theorem added_eq_some {change : PtsChange Body} {message : ChannelMessage Body} :
    change.added = some message ↔ change = newMessage message := by
  cases change with
  | newMessage other =>
      constructor
      · intro h
        rw [Option.some.inj h]
      · rintro ⟨⟩
        rfl
  | _ =>
      constructor
      · rintro ⟨⟩
      · rintro ⟨⟩

theorem edited_eq_some {change : PtsChange Body} {message : ChannelMessage Body} :
    change.edited = some message ↔ change = editMessage message := by
  cases change with
  | editMessage other =>
      constructor
      · intro h
        rw [Option.some.inj h]
      · rintro ⟨⟩
        rfl
  | _ =>
      constructor
      · rintro ⟨⟩
      · rintro ⟨⟩

theorem mem_deleted {change : PtsChange Body} {mid : ℤ} :
    mid ∈ change.deleted ↔ ∃ messages, change = deleteMessages messages ∧ mid ∈ messages := by
  cases change with
  | deleteMessages messages =>
      constructor
      · exact fun h => ⟨messages, rfl, h⟩
      · rintro ⟨_, ⟨⟩, h⟩
        exact h
  | _ =>
      constructor
      · exact fun h => absurd h List.not_mem_nil
      · rintro ⟨_, ⟨⟩, -⟩

/-- A change leaves the messages alone that it is not about. -/
theorem changeAt_of_not_about {change : PtsChange Body} {mid : ℤ} (h : ¬ change.About mid)
    (content : Option Body) : change.changeAt mid content = content := by
  cases change with
  | newMessage message => exact if_neg h
  | editMessage message => exact if_neg h
  | deleteMessages messages => exact if_neg h
  | webPage => rfl

end PtsChange

open PtsChange

/-- What changes make of the content of a message. -/
def contentAfter (changes : List (PtsChange Body)) (mid : ℤ) (content : Option Body) :
    Option Body :=
  changes.foldl (fun content change => change.changeAt mid content) content

/-- The messages that changes add. -/
def addedIn (changes : List (PtsChange Body)) : List (ChannelMessage Body) :=
  changes.filterMap added

/-- The messages that changes edit. -/
def editedIn (changes : List (PtsChange Body)) : List (ChannelMessage Body) :=
  changes.filterMap edited

/-- The messages that changes delete. -/
def deletedIn (changes : List (PtsChange Body)) : List ℤ :=
  changes.flatMap deleted

/-- A message that one of the changes adds is in no other one. -/
def Settled (changes : List (PtsChange Body)) : Prop :=
  changes.Pairwise fun change later => ∀ mid, change.About mid → later.About mid →
    (∀ message, change ≠ newMessage message) ∧ ∀ message, later ≠ newMessage message

section Changes

variable {changes more : List (PtsChange Body)} {change : PtsChange Body} {mid : ℤ}
  {content other : Option Body} {message : ChannelMessage Body} {body : Body}

theorem contentAfter_append : contentAfter (changes ++ more) mid content =
    contentAfter more mid (contentAfter changes mid content) :=
  List.foldl_append

theorem contentAfter_cons : contentAfter (change :: changes) mid content =
    contentAfter changes mid (change.changeAt mid content) :=
  rfl

theorem mem_addedIn : message ∈ addedIn changes ↔ newMessage message ∈ changes := by
  rw [addedIn, List.mem_filterMap]
  exact ⟨fun ⟨_, hmem, h⟩ => added_eq_some.mp h ▸ hmem,
    fun h => ⟨_, h, added_eq_some.mpr rfl⟩⟩

theorem mem_editedIn : message ∈ editedIn changes ↔ editMessage message ∈ changes := by
  rw [editedIn, List.mem_filterMap]
  exact ⟨fun ⟨_, hmem, h⟩ => edited_eq_some.mp h ▸ hmem,
    fun h => ⟨_, h, edited_eq_some.mpr rfl⟩⟩

theorem mem_deletedIn :
    mid ∈ deletedIn changes ↔ ∃ messages, deleteMessages messages ∈ changes ∧ mid ∈ messages := by
  rw [deletedIn, List.mem_flatMap]
  constructor
  · rintro ⟨change, hmem, hdeleted⟩
    obtain ⟨messages, rfl, hmid⟩ := mem_deleted.mp hdeleted
    exact ⟨messages, hmem, hmid⟩
  · rintro ⟨messages, hmem, hmid⟩
    exact ⟨_, hmem, mem_deleted.mpr ⟨messages, rfl, hmid⟩⟩

/-- Changes leave the messages alone that they are not about. -/
theorem contentAfter_of_not_about (h : ∀ change ∈ changes, ¬ change.About mid) :
    contentAfter changes mid content = content := by
  induction changes with
  | nil => rfl
  | cons change changes ih =>
      rw [contentAfter_cons, changeAt_of_not_about (h change List.mem_cons_self)]
      exact ih fun later hlater => h later (List.mem_cons_of_mem _ hlater)

/-- The content of a message comes from before, or from one of the changes. -/
theorem contentAfter_eq_some (h : contentAfter changes mid content = some body) :
    content = some body ∨ ∃ message : ChannelMessage Body, message.mid = mid ∧
      message.body = body ∧ (newMessage message ∈ changes ∨ editMessage message ∈ changes) := by
  induction changes generalizing content with
  | nil => exact .inl h
  | cons change changes ih =>
      rw [contentAfter_cons] at h
      rcases ih h with hchanged | ⟨message, hmid, hbody, hmem⟩
      · cases change with
        | newMessage message =>
            rw [changeAt] at hchanged
            split at hchanged
            · next hmid =>
                exact .inr ⟨message, hmid, Option.some.inj hchanged, .inl List.mem_cons_self⟩
            · exact .inl hchanged
        | editMessage message =>
            rw [changeAt] at hchanged
            split at hchanged
            · next hmid =>
                obtain ⟨_, -, hbody⟩ := Option.map_eq_some_iff.mp hchanged
                exact .inr ⟨message, hmid, hbody, .inr List.mem_cons_self⟩
            · exact .inl hchanged
        | deleteMessages messages =>
            rw [changeAt] at hchanged
            split at hchanged
            · cases hchanged
            · exact .inl hchanged
        | webPage => exact .inl hchanged
      · exact .inr ⟨message, hmid, hbody, hmem.imp (List.mem_cons_of_mem _)
          (List.mem_cons_of_mem _)⟩

/-- A message that is there, and not deleted, stays. -/
theorem isSome_contentAfter (hthere : content.isSome)
    (hstays : ∀ change ∈ changes, mid ∉ change.deleted) :
    (contentAfter changes mid content).isSome := by
  induction changes generalizing content with
  | nil => exact hthere
  | cons change changes ih =>
      have hrest := fun later hlater => hstays later (List.mem_cons_of_mem change hlater)
      have hfirst := hstays change List.mem_cons_self
      rw [contentAfter_cons]
      refine ih ?_ hrest
      cases change with
      | newMessage message =>
          rw [changeAt]
          split
          · rfl
          · exact hthere
      | editMessage message =>
          rw [changeAt]
          split
          · exact Option.isSome_map.trans hthere
          · exact hthere
      | deleteMessages messages =>
          have hnot : mid ∉ messages := hfirst
          rw [changeAt, if_neg hnot]
          exact hthere
      | webPage => exact hthere

/-- So does one that is added. -/
theorem isSome_contentAfter_of_added (hadded : newMessage message ∈ changes)
    (hstays : ∀ change ∈ changes, message.mid ∉ change.deleted) :
    (contentAfter changes message.mid content).isSome := by
  obtain ⟨before, behind, rfl⟩ := List.append_of_mem hadded
  rw [contentAfter_append, contentAfter_cons, changeAt, if_pos rfl]
  exact isSome_contentAfter rfl fun change hmem =>
    hstays change (List.mem_append_right _ (List.mem_cons_of_mem _ hmem))

/-- A message that is not there and not added stays away. -/
theorem contentAfter_none (h : ∀ message ∈ addedIn changes, message.mid ≠ mid) :
    contentAfter changes mid none = none := by
  induction changes with
  | nil => rfl
  | cons change changes ih =>
      have hrest := ih fun message hmem =>
        h message (mem_addedIn.mpr (List.mem_cons_of_mem _ (mem_addedIn.mp hmem)))
      rw [contentAfter_cons]
      cases change with
      | newMessage message =>
          rw [changeAt, if_neg (h message (mem_addedIn.mpr List.mem_cons_self))]
          exact hrest
      | editMessage message =>
          rw [changeAt, Option.map_none, ite_self]
          exact hrest
      | deleteMessages messages =>
          rw [changeAt, ite_self]
          exact hrest
      | webPage => exact hrest

/-- **Edits and deletions in any order of their kinds**: a message that is not added is gone if it
is deleted, and has its last edit otherwise. -/
theorem contentAfter_of_not_added (h : ∀ message ∈ addedIn changes, message.mid ≠ mid) :
    contentAfter changes mid content =
      if mid ∈ deletedIn changes then none
      else contentAfter ((editedIn changes).map editMessage) mid content := by
  induction changes generalizing content with
  | nil => rfl
  | cons change changes ih =>
      have hrest : ∀ message ∈ addedIn changes, message.mid ≠ mid := fun message hmem =>
        h message (mem_addedIn.mpr (List.mem_cons_of_mem _ (mem_addedIn.mp hmem)))
      rw [contentAfter_cons]
      cases change with
      | newMessage message =>
          rw [changeAt, if_neg (h message (mem_addedIn.mpr List.mem_cons_self))]
          exact ih hrest
      | editMessage message => exact ih hrest
      | deleteMessages messages =>
          have hdeleted : mid ∈ deletedIn (deleteMessages messages :: changes) ↔
              mid ∈ messages ∨ mid ∈ deletedIn changes := List.mem_append
          rw [changeAt]
          split
          · next hmem => rw [if_pos (hdeleted.mpr (.inl hmem)), contentAfter_none hrest]
          · next hnot =>
              rw [ih hrest, if_congr (hdeleted.trans (or_iff_right hnot)) rfl rfl]
              rfl
      | webPage => exact ih hrest

/-- Changes that are among settled ones are settled. -/
theorem Settled.sublist (h : Settled changes) (hmore : more.Sublist changes) : Settled more :=
  List.Pairwise.sublist hmore h

/-- A message that is added is in no other one of settled changes. -/
theorem Settled.eq_of_about (h : Settled changes) (hadded : newMessage message ∈ changes)
    (hmem : change ∈ changes) (habout : change.About message.mid) :
    change = newMessage message := by
  induction changes with
  | nil => exact absurd hmem List.not_mem_nil
  | cons first changes ih =>
      obtain ⟨hfirst, hrest⟩ := List.pairwise_cons.mp h
      rcases List.mem_cons.mp hadded with rfl | haddedRest
      · rcases List.mem_cons.mp hmem with heq | hmemRest
        · exact heq
        · exact absurd rfl ((hfirst change hmemRest _ rfl habout).1 message)
      · rcases List.mem_cons.mp hmem with rfl | hmemRest
        · have hboth : (newMessage message).About message.mid := rfl
          exact absurd rfl ((hfirst _ haddedRest _ habout hboth).2 message)
        · exact ih hrest haddedRest hmemRest

/-- **A message that is added, and not changed otherwise, is there.** -/
theorem Settled.contentAfter_eq (h : Settled changes) (hadded : newMessage message ∈ changes) :
    contentAfter changes message.mid content = some message.body := by
  obtain ⟨before, behind, rfl⟩ := List.append_of_mem hadded
  obtain ⟨-, hbehind, -⟩ := List.pairwise_append.mp h
  rw [contentAfter_append, contentAfter_cons, changeAt, if_pos rfl]
  refine contentAfter_of_not_about fun change hmem habout => ?_
  exact ((List.pairwise_cons.mp hbehind).1 change hmem _ rfl habout).1 message rfl

/-- What is added by the changes of a kind is what is added. -/
theorem Settled.contentAfter_added (h : Settled changes) (hadded : newMessage message ∈ changes) :
    contentAfter ((addedIn changes).map newMessage) message.mid content = some message.body := by
  have hsublist : ((addedIn changes).map newMessage).Sublist changes := by
    clear h hadded
    induction changes with
    | nil => exact .slnil
    | cons change changes ih =>
        cases change with
        | newMessage message => exact ih.cons_cons _
        | _ => exact ih.cons _
  exact (h.sublist hsublist).contentAfter_eq
    (List.mem_map_of_mem (mem_addedIn.mpr hadded))

end Changes

/-! ### The log -/

/-- An update with its number. -/
structure PtsUpdate (Body : Type) where
  pts : ℤ
  ptsCount : ℤ
  change : PtsChange Body
deriving DecidableEq

/-- The log of a server: each update counts for the numbers behind the one before it, from the
first number on; a message that is added is new; and all are messages of the channel. -/
structure IsLog (peerId : ℤ) (log : List (PtsUpdate Body)) : Prop where
  counts : ∀ update ∈ log, 0 < update.ptsCount
  continues : Chains.Continues PtsUpdate.pts PtsUpdate.ptsCount 1 log
  fresh : log.Pairwise fun update later => ∀ message, later.change = newMessage message →
    ¬ update.change.About message.mid
  ours : ∀ update ∈ log, ∀ message, update.change = newMessage message ∨
    update.change = editMessage message → message.cid = peerId ∧ message.mid ≠ 0

/-- The updates of a log up to a number. -/
def upTo (log : List (PtsUpdate Body)) (pts : ℤ) : List (PtsUpdate Body) :=
  log.filter fun update => update.pts ≤ pts

/-- The updates of a log behind one number and up to another one. -/
def between (log : List (PtsUpdate Body)) (low high : ℤ) : List (PtsUpdate Body) :=
  log.filter fun update => low < update.pts ∧ update.pts ≤ high

/-- What a message is after a number. -/
def contentAt (log : List (PtsUpdate Body)) (pts mid : ℤ) : Option Body :=
  contentAfter ((upTo log pts).map PtsUpdate.change) mid none

/-- The messages that a log tells of. -/
def Tells (log : List (PtsUpdate Body)) (message : ChannelMessage Body) : Prop :=
  ∃ update ∈ log, update.change = newMessage message ∨ update.change = editMessage message

/-- The first number, or that of an update of a log. -/
def Aligned (log : List (PtsUpdate Body)) (pts : ℤ) : Prop :=
  pts = 1 ∨ ∃ update ∈ log, update.pts = pts

section Log

variable {peerId : ℤ} {log : List (PtsUpdate Body)} {low middle high pts mid : ℤ}
  {update : PtsUpdate Body}

theorem mem_between : update ∈ between log low high ↔
    update ∈ log ∧ low < update.pts ∧ update.pts ≤ high := by
  rw [between, List.mem_filter, decide_eq_true_eq]

theorem mem_upTo : update ∈ upTo log pts ↔ update ∈ log ∧ update.pts ≤ pts := by
  rw [upTo, List.mem_filter, decide_eq_true_eq]

/-- The numbers of a log are behind the first one. -/
theorem IsLog.one_lt (h : IsLog peerId log) (hmem : update ∈ log) : 1 < update.pts := by
  have hbound := ((h.continues.bounds fun i hi => (h.counts i hi).le).2 update hmem).1
  have hcount := h.counts update hmem
  omega

/-- An update of a log counts for numbers behind those before it. -/
theorem IsLog.behind (h : IsLog peerId log) :
    log.Pairwise fun update later => update.pts ≤ later.pts - later.ptsCount := by
  have hchain : ∀ (log : List (PtsUpdate Body)) (first : ℤ),
      (∀ update ∈ log, 0 < update.ptsCount) →
      Chains.Continues PtsUpdate.pts PtsUpdate.ptsCount first log →
      log.Pairwise fun update later => update.pts ≤ later.pts - later.ptsCount := by
    intro log
    induction log with
    | nil => exact fun _ _ _ => .nil
    | cons update log ih =>
        intro first hcounts hcontinues
        have hrest := fun later hlater => hcounts later (List.mem_cons_of_mem update hlater)
        refine List.pairwise_cons.mpr ⟨fun later hlater => ?_, ih _ hrest hcontinues.2⟩
        exact ((hcontinues.2.bounds fun i hi => (hrest i hi).le).2 later hlater).1
  exact hchain log 1 h.counts h.continues

/-- Of two members of a list, one is before the other. -/
theorem eq_or_of_pairwise {α : Type} {R : α → α → Prop} {l : List α} (h : l.Pairwise R) {a b : α}
    (ha : a ∈ l) (hb : b ∈ l) : a = b ∨ R a b ∨ R b a :=
  List.Pairwise.forall_of_forall_of_flip (R := fun a b => a = b ∨ R a b ∨ R b a)
    (fun _ _ => .inl rfl) (h.imp fun hR => .inr (.inl hR)) (h.imp fun hR => .inr (.inr hR)) ha hb

/-- Of two updates of a log, one is behind the other. -/
theorem IsLog.trichotomy (h : IsLog peerId log) {other : PtsUpdate Body} (hmem : update ∈ log)
    (hother : other ∈ log) : update = other ∨ update.pts ≤ other.pts - other.ptsCount ∨
      other.pts ≤ update.pts - update.ptsCount :=
  eq_or_of_pairwise h.behind hmem hother

/-- The numbers of a log go up. -/
theorem IsLog.ascending (h : IsLog peerId log) :
    log.Pairwise fun update later => update.pts < later.pts := by
  refine h.behind.imp_of_mem fun {update later} _ hlater hbehind => ?_
  have hcount := h.counts later hlater
  omega

/-- Nothing is about a message before it is added. -/
theorem IsLog.not_about (h : IsLog peerId log) {other : PtsUpdate Body}
    {message : ChannelMessage Body} (hmem : update ∈ log) (hother : other ∈ log)
    (hlt : other.pts < update.pts) (hchange : update.change = newMessage message) :
    ¬ other.change.About message.mid := by
  have hboth : log.Pairwise fun update later => update.pts < later.pts ∧
      ∀ message, later.change = newMessage message → ¬ update.change.About message.mid :=
    h.ascending.and h.fresh
  rcases eq_or_of_pairwise hboth hother hmem with rfl | hbefore | hbehind
  · exact absurd hlt (lt_irrefl _)
  · exact hbefore.2 message hchange
  · exact absurd hlt (lt_asymm hbehind.1)

/-- A message is not there before it is added. -/
theorem IsLog.contentAt_eq_none (h : IsLog peerId log) {message : ChannelMessage Body}
    (hmem : update ∈ log) (hchange : update.change = newMessage message)
    (hlt : pts < update.pts) : contentAt log pts message.mid = none := by
  refine contentAfter_of_not_about fun change hmemUpTo => ?_
  obtain ⟨other, hother, rfl⟩ := List.mem_map.mp hmemUpTo
  obtain ⟨hlog, hle⟩ := mem_upTo.mp hother
  exact h.not_about hmem hlog (hle.trans_lt hlt) hchange

/-- A message that is never deleted is there once it has been added. -/
theorem isSome_contentAt {message : ChannelMessage Body} (hmem : update ∈ log)
    (hchange : update.change = newMessage message) (hle : update.pts ≤ pts)
    (hstays : ∀ update ∈ log, message.mid ∉ update.change.deleted) :
    (contentAt log pts message.mid).isSome := by
  refine isSome_contentAfter_of_added
    (List.mem_map.mpr ⟨update, mem_upTo.mpr ⟨hmem, hle⟩, hchange⟩) fun change hmemUpTo => ?_
  obtain ⟨other, hother, rfl⟩ := List.mem_map.mp hmemUpTo
  exact hstays other (mem_upTo.mp hother).1

/-- A list that goes up is cut in two at a number. -/
theorem filter_append_filter {log : List (PtsUpdate Body)}
    (h : log.Pairwise fun update later => update.pts < later.pts) (pts : ℤ) :
    log = log.filter (fun update => update.pts ≤ pts) ++
      log.filter fun update => pts < update.pts := by
  induction log with
  | nil => rfl
  | cons update log ih =>
      obtain ⟨hfirst, hrest⟩ := List.pairwise_cons.mp h
      by_cases hle : update.pts ≤ pts
      · rw [List.filter_cons, List.filter_cons, if_pos (decide_eq_true hle),
          if_neg (by rw [decide_eq_true_eq]; omega), List.cons_append, ← ih hrest]
      · have hnone : log.filter (fun update => decide (update.pts ≤ pts)) = [] := by
          refine List.filter_eq_nil_iff.mpr fun later hlater => ?_
          have hlt := hfirst later hlater
          rw [decide_eq_true_eq]
          omega
        have hall := ih hrest
        rw [hnone, List.nil_append] at hall
        rw [List.filter_cons, List.filter_cons, if_neg (by rwa [decide_eq_true_eq]), hnone,
          List.nil_append, if_pos (decide_eq_true (lt_of_not_ge hle)), ← hall]

/-- **The updates up to a number, in two parts.** -/
theorem IsLog.upTo_append_between (h : IsLog peerId log) (hle : low ≤ high) :
    upTo log high = upTo log low ++ between log low high := by
  have hcut := filter_append_filter (h.ascending.filter fun update => decide (update.pts ≤ high))
    low
  rw [List.filter_filter, List.filter_filter] at hcut
  rw [upTo, hcut, upTo, between]
  congr 1
  · refine List.filter_congr fun update _ => ?_
    rw [← Bool.decide_and]
    exact decide_eq_decide.mpr (by omega)
  · refine List.filter_congr fun update _ => ?_
    rw [← Bool.decide_and]

/-- The updates between two numbers, in two parts. -/
theorem IsLog.between_append (h : IsLog peerId log) (hlow : low ≤ middle) (hhigh : middle ≤ high) :
    between log low high = between log low middle ++ between log middle high := by
  have hcut := filter_append_filter
    (h.ascending.filter fun update => decide (low < update.pts ∧ update.pts ≤ high)) middle
  rw [List.filter_filter, List.filter_filter] at hcut
  rw [between, hcut, between, between]
  congr 1
  · refine List.filter_congr fun update _ => ?_
    rw [← Bool.decide_and]
    exact decide_eq_decide.mpr (by omega)
  · refine List.filter_congr fun update _ => ?_
    rw [← Bool.decide_and]
    exact decide_eq_decide.mpr (by omega)

/-- **An update that continues a number is the next one.** -/
theorem IsLog.between_eq_singleton (h : IsLog peerId log) (hmem : update ∈ log)
    (hnext : low + update.ptsCount = update.pts) : between log low update.pts = [update] := by
  have hcount := h.counts update hmem
  have honly : ∀ other ∈ between log low update.pts, other = update := by
    intro other hother
    obtain ⟨hlog, hlow, hhigh⟩ := mem_between.mp hother
    have hpos := h.counts other hlog
    rcases h.trichotomy hlog hmem with heq | hbefore | hbehind
    · exact heq
    · omega
    · omega
  have hnodup : (between log low update.pts).Nodup :=
    (h.ascending.filter _).imp fun hlt heq => absurd (heq ▸ hlt) (lt_irrefl _)
  have hmemBetween : update ∈ between log low update.pts :=
    mem_between.mpr ⟨hmem, by omega, le_rfl⟩
  cases hlist : between log low update.pts with
  | nil => exact absurd (hlist ▸ hmemBetween) List.not_mem_nil
  | cons first rest =>
      rw [hlist] at honly hnodup
      obtain rfl := honly first List.mem_cons_self
      cases rest with
      | nil => rfl
      | cons second rest =>
          obtain rfl := honly second (List.mem_cons_of_mem _ List.mem_cons_self)
          exact absurd List.mem_cons_self (List.nodup_cons.mp hnodup).1

end Log

end Telegraph.Channels

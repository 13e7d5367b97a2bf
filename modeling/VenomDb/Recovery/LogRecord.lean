import VenomDb.Storage.Page

/-!
# Log records

The records of the write-ahead log. The log file is kept decoded, as the list of
records that `read_all_records` gives back.
-/

namespace VenomDb

inductive LogRecord where
  /-- Transaction started. -/
  | begin (lsn : UInt64) (txnId : UInt32)
  /-- A tuple was inserted; `data` are its bytes, for REDO. -/
  | insert (lsn : UInt64) (txnId pageId : UInt32) (slotId : UInt16) (data : Bytes)
  /-- A tuple was deleted; `oldData` are its bytes before, for UNDO. -/
  | delete (lsn : UInt64) (txnId pageId : UInt32) (slotId : UInt16) (oldData : Bytes)
  /-- A tuple was updated; its bytes before, for UNDO, and after, for REDO. -/
  | update (lsn : UInt64) (txnId pageId : UInt32) (slotId : UInt16) (oldData newData : Bytes)
  /-- Transaction committed. -/
  | commit (lsn : UInt64) (txnId : UInt32)
  /-- Transaction aborted. -/
  | abort (lsn : UInt64) (txnId : UInt32)
  /-- All pages up to this point are on disk; never written by the log manager. -/
  | checkpoint (lsn : UInt64)
  deriving DecidableEq

namespace LogRecord

def lsn : LogRecord → UInt64
  | begin lsn _ => lsn
  | insert lsn _ _ _ _ => lsn
  | delete lsn _ _ _ _ => lsn
  | update lsn _ _ _ _ _ => lsn
  | commit lsn _ => lsn
  | abort lsn _ => lsn
  | checkpoint lsn => lsn

def txnId : LogRecord → Option UInt32
  | begin _ txnId => some txnId
  | insert _ txnId _ _ _ => some txnId
  | delete _ txnId _ _ _ => some txnId
  | update _ txnId _ _ _ _ => some txnId
  | commit _ txnId => some txnId
  | abort _ txnId => some txnId
  | checkpoint _ => none

/-- The record with the sequence number that `append` gives it. -/
def withLsn (lsn : UInt64) : LogRecord → LogRecord
  | begin _ txnId => begin lsn txnId
  | insert _ txnId pageId slotId data => insert lsn txnId pageId slotId data
  | delete _ txnId pageId slotId oldData => delete lsn txnId pageId slotId oldData
  | update _ txnId pageId slotId oldData newData => update lsn txnId pageId slotId oldData newData
  | commit _ txnId => commit lsn txnId
  | abort _ txnId => abort lsn txnId
  | checkpoint _ => checkpoint lsn

/-- An `Insert`, `Delete` or `Update` record. -/
def isData : LogRecord → Bool
  | insert .. => true
  | delete .. => true
  | update .. => true
  | _ => false

/-- The page a data record is about. -/
def pageId : LogRecord → Option UInt32
  | insert _ _ pageId _ _ => some pageId
  | delete _ _ pageId _ _ => some pageId
  | update _ _ pageId _ _ _ => some pageId
  | _ => none

end LogRecord

end VenomDb

import HostSql.Text.Basic

/-! The words that the layout of SQL goes by. -/
namespace HostSql.Pretty

/-- A keyword of one or more words, in upper case. -/
abbrev Keyword := List Text

def keywords (names : List String) : List Keyword := names.map fun s => Text.words s.toList

/-- Words that open a clause. -/
def clauseWords : List Keyword := keywords [
  "ADD", "AFTER", "ALTER COLUMN", "ALTER TABLE", "CREATE TABLE", "CREATE UNLOGGED TABLE",
  "CREATE GLOBAL TABLE", "CREATE GLOBAL TEMPORARY TABLE", "CREATE GLOBAL TEMP TABLE",
  "CREATE LOCAL TABLE", "CREATE LOCAL TEMPORARY TABLE", "CREATE LOCAL TEMP TABLE", "DELETE FROM",
  "EXCEPT", "FETCH FIRST", "FROM", "FOR UPDATE", "FOR NO KEY UPDATE", "FOR SHARE", "FOR KEY SHARE",
  "GROUP BY", "GO", "HAVING", "INSERT INTO", "INSERT", "LIMIT", "MODIFY", "MERGE INTO", "ORDER BY",
  "ON CONFLICT", "PARTITION BY", "RETURNING", "SELECT DISTINCT", "SELECT ALL", "SELECT",
  "SET CURRENT SCHEMA", "SET SCHEMA", "SET", "UPDATE", "USING", "VALUES", "WHERE", "WINDOW"]

/-- Words after which a clause goes on one level deeper. -/
def actionWords : List Keyword := keywords ["DO NOTHING", "DO UPDATE SET"]

/-- Words that start a line within a clause. -/
def lineWords : List Keyword := keywords [
  "CROSS APPLY", "OUTER APPLY", "AND", "OR", "XOR", "WHEN", "ELSE", "ADD", "DROP", "ALTER",
  "VALIDATE", "ENABLE", "DISABLE"]

def joinWords : List Keyword := keywords [
  "JOIN", "INNER JOIN", "LEFT JOIN", "RIGHT JOIN", "FULL JOIN", "CROSS JOIN", "LEFT OUTER JOIN",
  "RIGHT OUTER JOIN", "FULL OUTER JOIN", "INNER ANY JOIN", "LEFT ANY JOIN", "RIGHT ANY JOIN",
  "ANY JOIN", "SEMI JOIN", "LEFT SEMI JOIN", "RIGHT SEMI JOIN", "LEFT ANTI JOIN",
  "RIGHT ANTI JOIN", "ASOF JOIN", "LEFT ASOF JOIN", "PASTE JOIN", "GLOBAL INNER JOIN",
  "GLOBAL LEFT JOIN", "GLOBAL RIGHT JOIN", "GLOBAL FULL JOIN"]

/-- Words that open a clause whose body is not indented. -/
def flatClauseWords : List Keyword := keywords [
  "BEGIN", "DECLARE", "INTERSECT ALL", "INTERSECT", "MINUS", "UNION ALL", "UNION", "WITH", "$$"]

def pairWords : List Keyword := keywords [
  "CHARACTER SET", "ON CONFLICT", "ON CONSTRAINT", "ON DELETE", "ON UPDATE", "DISTINCT FROM",
  "PARTITIONED BY"]

/-- All other words that are cased as keywords. -/
def plainWords : List Keyword := keywords [
  "ACCESSIBLE", "ACTION", "AGAINST", "AGGREGATE", "ALGORITHM", "ALL", "ALTER", "ANALYSE",
  "ANALYZE", "AS", "ASC", "AUTOCOMMIT", "AUTO_INCREMENT", "BACKUP", "BETWEEN", "BINLOG", "BOTH",
  "CASCADE", "CASE", "CHANGE", "CHANGED", "CHARSET", "CHECK", "CHECKSUM", "COLLATE", "COLLATION",
  "COLUMN", "COLUMNS", "COMMENT", "COMMIT", "COMMITTED", "COMPRESSED", "CONCURRENT", "CONSTRAINT",
  "CONTAINS", "CONVERT", "CREATE", "CROSS", "CURRENT_TIMESTAMP", "DATABASE", "DATABASES", "DAY",
  "DAY_HOUR", "DAY_MINUTE", "DAY_SECOND", "DEFAULT", "DEFINER", "DELAYED", "DELETE", "DESC",
  "DESCRIBE", "DETERMINISTIC", "DISTINCT", "DISTINCTROW", "DIV", "DO", "DROP", "DUMPFILE",
  "DUPLICATE", "DYNAMIC", "ELSE", "ENCLOSED", "END", "ENGINE", "ENGINES", "ENGINE_TYPE", "ESCAPE",
  "ESCAPED", "EVENTS", "EXEC", "EXECUTE", "EXISTS", "EXPLAIN", "EXTENDED", "FAST", "FETCH",
  "FIELDS", "FILE", "FIRST", "FIXED", "FLUSH", "FOR", "FORCE", "FOREIGN", "FULL", "FULLTEXT",
  "FUNCTION", "GLOBAL", "GRANT", "GRANTS", "GROUP_CONCAT", "HEAP", "HIGH_PRIORITY", "HOSTS",
  "HOUR", "HOUR_MINUTE", "HOUR_SECOND", "IDENTIFIED", "IF", "IFNULL", "IGNORE", "IN", "INDEX",
  "INDEXES", "INFILE", "INSERT", "INSERT_ID", "INSERT_METHOD", "INTERVAL", "INTO", "INVOKER", "IS",
  "ISOLATION", "KEY", "KEYS", "KILL", "LAST_INSERT_ID", "LEADING", "LEVEL", "LIKE", "LINEAR",
  "LINES", "LOAD", "LOCAL", "LOCK", "LOCKS", "LOGS", "LOW_PRIORITY", "MARIA", "MASTER",
  "MASTER_CONNECT_RETRY", "MASTER_HOST", "MASTER_LOG_FILE", "MATCH", "MAX_CONNECTIONS_PER_HOUR",
  "MAX_QUERIES_PER_HOUR", "MAX_ROWS", "MAX_UPDATES_PER_HOUR", "MAX_USER_CONNECTIONS", "MEDIUM",
  "MERGE", "MINUTE", "MINUTE_SECOND", "MIN_ROWS", "MODE", "MODIFY", "MONTH", "MRG_MYISAM",
  "MYISAM", "NAMES", "NATURAL", "NOT", "NOW()", "NULL", "OFFSET", "ON", "ONLY", "OPEN", "OPTIMIZE",
  "OPTION", "OPTIONALLY", "OUTFILE", "PACK_KEYS", "PAGE", "PARTIAL", "PARTITION", "PARTITIONS",
  "PASSWORD", "PRIMARY", "PRIVILEGES", "PROCEDURE", "PROCESS", "PROCESSLIST", "PURGE", "QUICK",
  "RAID0", "RAID_CHUNKS", "RAID_CHUNKSIZE", "RAID_TYPE", "RANGE", "READ", "READ_ONLY",
  "READ_WRITE", "REFERENCES", "REGEXP", "RELOAD", "RENAME", "REPAIR", "REPEATABLE", "REPLACE",
  "REPLICATION", "RESET", "RESTORE", "RESTRICT", "RETURN", "RETURNS", "REVOKE", "RLIKE",
  "ROLLBACK", "ROW", "ROWS", "ROW_FORMAT", "SECOND", "SECURITY", "SEPARATOR", "SERIALIZABLE",
  "SESSION", "SHARE", "SHOW", "SHUTDOWN", "SLAVE", "SONAME", "SOUNDS", "SQL", "SQL_AUTO_IS_NULL",
  "SQL_BIG_RESULT", "SQL_BIG_SELECTS", "SQL_BIG_TABLES", "SQL_BUFFER_RESULT", "SQL_CACHE",
  "SQL_CALC_FOUND_ROWS", "SQL_LOG_BIN", "SQL_LOG_OFF", "SQL_LOG_UPDATE",
  "SQL_LOW_PRIORITY_UPDATES", "SQL_MAX_JOIN_SIZE", "SQL_NO_CACHE", "SQL_QUOTE_SHOW_CREATE",
  "SQL_SAFE_UPDATES", "SQL_SELECT_LIMIT", "SQL_SLAVE_SKIP_COUNTER", "SQL_SMALL_RESULT",
  "SQL_WARNINGS", "START", "STARTING", "STATUS", "STOP", "STORAGE", "STRAIGHT_JOIN", "STRING",
  "STRIPED", "SUPER", "TABLE", "TABLES", "TEMPORARY", "TERMINATED", "THEN", "TO", "TRAILING",
  "TRANSACTIONAL", "TRUE", "TRUNCATE", "TYPE", "TYPES", "TBLPROPERTIES", "UNCOMMITTED", "UNIQUE",
  "UNLOCK", "UNSIGNED", "USAGE", "USE", "VARIABLES", "VIEW", "WHEN", "WORK", "WRITE", "YEAR_MONTH"]

end HostSql.Pretty
